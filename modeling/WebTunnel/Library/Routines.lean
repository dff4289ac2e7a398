import WebTunnel.Library.Lists
import WebTunnel.Library.Program

/-! Code that works on data and on linked lists, its meaning over lists of nodes, and the
rules of its pre- and postconditions. -/

namespace WebTunnel.Library.Routines
open Library.Lists Program Function

/-- The operations on lists. -/
inductive ListOp (κ ν : Type) where
  | add (n : ν) (h : κ)
  | addTail (n : ν) (h : κ)
  | del (n : ν)
  | splice (a b : κ)
  | spliceInit (a b : κ)
  | spliceTailInit (a b : κ)
  | init (h : κ)
  | wipe (h : κ)

/-- Code over data `σ` and lists, which returns an `α` or stops with an `ε`. It is kept as a
tree of its steps, so that it has a meaning over lists and one over linked nodes. -/
inductive Routine (κ ν σ ε α : Type) where
  | ret (a : α)
  | stop (e : ε)
  | load (next : σ → Routine κ ν σ ε α)
  | store (s : σ) (next : Routine κ ν σ ε α)
  | link (op : ListOp κ ν) (next : Routine κ ν σ ε α)
  | first (h : κ) (next : Option ν → Routine κ ν σ ε α)
  | walk (h : κ) (next : List ν → Routine κ ν σ ε α)

/-- Data and lists together. -/
structure World (κ ν σ : Type) where
  data : σ
  rings : Rings κ ν

/-- The error of code that uses a list in a way that breaks it. -/
class Misuse (ε : Type) where
  misuse : ε

variable {κ ν σ ε α β : Type}

/-- What a list operation makes of the lists, if it does not break them. -/
def ListOp.apply [DecidableEq κ] [DecidableEq ν] (R : Rings κ ν) : ListOp κ ν → Option (Rings κ ν)
  | .add n h => R.add n h
  | .addTail n h => R.addTail n h
  | .del n => R.del n
  | .splice a b => R.splice a b
  | .spliceInit a b => R.spliceInit a b
  | .spliceTailInit a b => R.spliceTailInit a b
  | .init h => R.reset h (some []) Rings.eq_nil_of_emptied
  | .wipe h => R.reset h none Rings.eq_nil_of_unset

namespace Routine

def bind : Routine κ ν σ ε α → (α → Routine κ ν σ ε β) → Routine κ ν σ ε β
  | .ret a, f => f a
  | .stop e, _ => .stop e
  | .load next, f => .load fun s => bind (next s) f
  | .store s next, f => .store s (bind next f)
  | .link op next, f => .link op (bind next f)
  | .first h next, f => .first h fun n => bind (next n) f
  | .walk h next, f => .walk h fun l => bind (next l) f

instance : Monad (Routine κ ν σ ε) where
  pure := .ret
  bind := bind

def data : Routine κ ν σ ε σ := .load .ret
def put (s : σ) : Routine κ ν σ ε Unit := .store s (.ret ())
def modify (f : σ → σ) : Routine κ ν σ ε Unit := .load fun s => .store (f s) (.ret ())
def perform (op : ListOp κ ν) : Routine κ ν σ ε Unit := .link op (.ret ())

/-- A step that is taken under a condition. -/
def when (p : Prop) [Decidable p] (code : Routine κ ν σ ε Unit) : Routine κ ν σ ε Unit :=
  if p then code else .ret ()

/-- A condition without which the routine stops. -/
def demand (p : Prop) [Decidable p] (e : ε) : Routine κ ν σ ε Unit := if p then .ret () else .stop e

/-- The first node of a list, if it has one. -/
def head (h : κ) : Routine κ ν σ ε (Option ν) := .first h .ret

/-- The nodes of a list, as a loop over it meets them. -/
def items (h : κ) : Routine κ ν σ ε (List ν) := .walk h .ret

variable [DecidableEq κ] [DecidableEq ν]

theorem init_effect {R S : Rings κ ν} {h : κ} (done : (ListOp.init h).apply R = some S) :
    (∀ l ∈ R.items h, l = []) ∧ S.items = update R.items h (some []) ∧ S.home = R.home :=
  @Rings.reset_effect κ ν _ R S h (some []) Rings.eq_nil_of_emptied done

theorem exists_init {R : Rings κ ν} {h : κ} (bare : ∀ l ∈ R.items h, l = []) :
    ∃ S, (ListOp.init h).apply R = some S ∧ S.items = update R.items h (some []) ∧ S.home = R.home :=
  @Rings.reset_of_bare κ ν _ R h (some []) Rings.eq_nil_of_emptied bare

theorem wipe_effect {R S : Rings κ ν} {h : κ} (done : (ListOp.wipe h).apply R = some S) :
    (∀ l ∈ R.items h, l = []) ∧ S.items = update R.items h none ∧ S.home = R.home :=
  @Rings.reset_effect κ ν _ R S h none Rings.eq_nil_of_unset done

theorem exists_wipe {R : Rings κ ν} {h : κ} (bare : ∀ l ∈ R.items h, l = []) :
    ∃ S, (ListOp.wipe h).apply R = some S ∧ S.items = update R.items h none ∧ S.home = R.home :=
  @Rings.reset_of_bare κ ν _ R h none Rings.eq_nil_of_unset bare

variable [Misuse ε]

/-- The meaning over lists, where breaking a list is an error. -/
def run : Routine κ ν σ ε α → World κ ν σ → Except ε (α × World κ ν σ)
  | .ret a, w => .ok (a, w)
  | .stop e, _ => .error e
  | .load next, w => (next w.data).run w
  | .store s next, w => next.run { w with data := s }
  | .link op next, w =>
    match op.apply w.rings with
    | some rings => next.run { w with rings }
    | none => .error Misuse.misuse
  | .first h next, w =>
    match w.rings.items h with
    | some l => (next l.head?).run w
    | none => .error Misuse.misuse
  | .walk h next, w =>
    match w.rings.items h with
    | some l => (next l).run w
    | none => .error Misuse.misuse

/-- A routine goes on where its first step has led. -/
theorem run_bind {code : Routine κ ν σ ε α} {next : α → Routine κ ν σ ε β} {w v : World κ ν σ} {a : α}
    (ran : code.run w = .ok (a, v)) : (code >>= next).run w = (next a).run v := by
  change (code.bind next).run w = _
  induction code generalizing w with
  | ret b =>
    cases ran
    rfl
  | stop e => cases ran
  | load more ih => exact ih w.data ran
  | store s more ih => exact ih ran
  | link op more ih =>
    rw [run] at ran
    rw [bind, run]
    cases done : op.apply w.rings with
    | none => rw [done] at ran; cases ran
    | some R => rw [done] at ran; exact ih ran
  | first h more ih =>
    rw [run] at ran
    rw [bind, run]
    cases found : w.rings.items h with
    | none => rw [found] at ran; cases ran
    | some l => rw [found] at ran; exact ih _ ran
  | walk h more ih =>
    rw [run] at ran
    rw [bind, run]
    cases found : w.rings.items h with
    | none => rw [found] at ran; cases ran
    | some l => rw [found] at ran; exact ih _ ran

/-- Weakest precondition of a routine, for a postcondition and an error condition. -/
def Wp (code : Routine κ ν σ ε α) (post : α → World κ ν σ → Prop) (err : ε → Prop)
    (w : World κ ν σ) : Prop := Program.Wp code.run post err w

theorem wp_of_run {code : Routine κ ν σ ε α} {post : α → World κ ν σ → Prop} {err : ε → Prop}
    {w v : World κ ν σ} {a : α} (ran : code.run w = .ok (a, v)) (wp : code.Wp post err w) :
    post a v := Program.wp_of_run ran wp

theorem wp_total {code : Routine κ ν σ ε α} {post : α → World κ ν σ → Prop} {w : World κ ν σ} :
    code.Wp post (fun _ => False) w ↔ ∃ a v, code.run w = .ok (a, v) ∧ post a v := Program.wp_total

theorem wp_mono {code : Routine κ ν σ ε α} {post post' : α → World κ ν σ → Prop} {err err' : ε → Prop}
    {w : World κ ν σ} (wp : code.Wp post err w) (weaker : ∀ a v, post a v → post' a v)
    (weakerErr : ∀ e, err e → err' e) : code.Wp post' err' w := Program.wp_mono wp weaker weakerErr

theorem wp_post {code : Routine κ ν σ ε α} {post post' : α → World κ ν σ → Prop} {err : ε → Prop}
    {w : World κ ν σ} (wp : code.Wp post err w) (weaker : ∀ a v, post a v → post' a v) :
    code.Wp post' err w := wp_mono wp weaker fun _ h => h

theorem wp_congr {code : Routine κ ν σ ε α} {post post' : α → World κ ν σ → Prop} {err : ε → Prop}
    {w : World κ ν σ} (same : ∀ a v, post a v ↔ post' a v) : code.Wp post err w ↔ code.Wp post' err w :=
  ⟨fun wp => wp_post wp fun a v => (same a v).mp, fun wp => wp_post wp fun a v => (same a v).mpr⟩

theorem wp_ran (code : Routine κ ν σ ε α) (w : World κ ν σ) :
    code.Wp (fun a v => code.run w = .ok (a, v)) (fun _ => True) w :=
  Program.wp_iff.mpr ⟨fun _ _ ran => ran, fun _ _ => trivial⟩

theorem wp_of_forall {code : Routine κ ν σ ε α} {post : α → World κ ν σ → Prop} {w : World κ ν σ}
    (always : ∀ a v, post a v) : code.Wp post (fun _ => True) w :=
  Program.wp_iff.mpr ⟨fun a v _ => always a v, fun _ _ => trivial⟩

/-- Two postconditions together, of which one speaks about routines that return only. -/
theorem wp_and {code : Routine κ ν σ ε α} {post post' : α → World κ ν σ → Prop} {err : ε → Prop}
    {w : World κ ν σ} (first : code.Wp post err w) (second : code.Wp post' (fun _ => True) w) :
    code.Wp (fun a v => post a v ∧ post' a v) err w :=
  Program.wp_mono (Program.wp_and first second) (fun _ _ h => h) fun _ h => h.1

theorem wp_bind_of_run {code : Routine κ ν σ ε α} {next : α → Routine κ ν σ ε β}
    {post : β → World κ ν σ → Prop} {err : ε → Prop} {w v : World κ ν σ} {a : α}
    (ran : code.run w = .ok (a, v)) : (code >>= next).Wp post err w ↔ (next a).Wp post err v := by
  unfold Wp Program.Wp
  rw [run_bind ran]

section
variable {post : α → World κ ν σ → Prop} {err : ε → Prop} {w : World κ ν σ}

@[simp] theorem wp_pure (a : α) : Wp (pure a : Routine κ ν σ ε α) post err w ↔ post a w := Iff.rfl

@[simp] theorem wp_stop (e : ε) : Wp (.stop e : Routine κ ν σ ε α) post err w ↔ err e := Iff.rfl

theorem wp_link (op : ListOp κ ν) (next : Routine κ ν σ ε α) :
    Wp (.link op next) post err w ↔
      (∀ R, op.apply w.rings = some R → next.Wp post err { w with rings := R }) ∧
        (op.apply w.rings = none → err Misuse.misuse) := by
  unfold Wp Program.Wp
  rw [run]
  cases done : op.apply w.rings <;> simp

theorem wp_first (h : κ) (next : Option ν → Routine κ ν σ ε α) :
    Wp (.first h next) post err w ↔
      (∀ l, w.rings.items h = some l → (next l.head?).Wp post err w) ∧
        (w.rings.items h = none → err Misuse.misuse) := by
  unfold Wp Program.Wp
  rw [run]
  cases found : w.rings.items h <;> simp

theorem wp_walk (h : κ) (next : List ν → Routine κ ν σ ε α) :
    Wp (.walk h next) post err w ↔
      (∀ l, w.rings.items h = some l → (next l).Wp post err w) ∧
        (w.rings.items h = none → err Misuse.misuse) := by
  unfold Wp Program.Wp
  rw [run]
  cases found : w.rings.items h <;> simp

@[simp] theorem wp_bind (code : Routine κ ν σ ε α) (next : α → Routine κ ν σ ε β)
    (post : β → World κ ν σ → Prop) (err : ε → Prop) (w : World κ ν σ) :
    Wp (code >>= next) post err w ↔ code.Wp (fun a v => (next a).Wp post err v) err w := by
  change Wp (code.bind next) post err w ↔ _
  induction code generalizing w with
  | ret a => rfl
  | stop e => rfl
  | load next ih => exact ih w.data w
  | store s next ih => exact ih { w with data := s }
  | link op next ih =>
    rw [bind, wp_link, wp_link]
    exact and_congr_left fun _ => forall₂_congr fun R _ => ih { w with rings := R }
  | first h next ih =>
    rw [bind, wp_first, wp_first]
    exact and_congr_left fun _ => forall₂_congr fun l _ => ih l.head? w
  | walk h next ih =>
    rw [bind, wp_walk, wp_walk]
    exact and_congr_left fun _ => forall₂_congr fun l _ => ih l w

@[simp] theorem wp_data (post : σ → World κ ν σ → Prop) :
    Wp (data : Routine κ ν σ ε σ) post err w ↔ post w.data w := Iff.rfl

@[simp] theorem wp_put (s : σ) (post : Unit → World κ ν σ → Prop) :
    Wp (put s : Routine κ ν σ ε Unit) post err w ↔ post () { w with data := s } := Iff.rfl

@[simp] theorem wp_modify (f : σ → σ) (post : Unit → World κ ν σ → Prop) :
    Wp (modify f : Routine κ ν σ ε Unit) post err w ↔ post () { w with data := f w.data } := Iff.rfl

theorem wp_perform (op : ListOp κ ν) (post : Unit → World κ ν σ → Prop) :
    Wp (perform op : Routine κ ν σ ε Unit) post err w ↔
      (∀ R, op.apply w.rings = some R → post () { w with rings := R }) ∧
        (op.apply w.rings = none → err Misuse.misuse) := wp_link op _

theorem wp_head (h : κ) (post : Option ν → World κ ν σ → Prop) :
    Wp (head h : Routine κ ν σ ε (Option ν)) post err w ↔
      (∀ l, w.rings.items h = some l → post l.head? w) ∧
        (w.rings.items h = none → err Misuse.misuse) := wp_first h _

theorem wp_items (h : κ) (post : List ν → World κ ν σ → Prop) :
    Wp (items h : Routine κ ν σ ε (List ν)) post err w ↔
      (∀ l, w.rings.items h = some l → post l w) ∧
        (w.rings.items h = none → err Misuse.misuse) := wp_walk h _

theorem wp_ite {p : Prop} [Decidable p] (code other : Routine κ ν σ ε α) :
    Wp (if p then code else other) post err w ↔
      if p then code.Wp post err w else other.Wp post err w := by
  split <;> rfl

theorem wp_when {p : Prop} [Decidable p] (code : Routine κ ν σ ε Unit) {post : Unit → World κ ν σ → Prop} :
    Wp (when p code) post err w ↔ (p → code.Wp post err w) ∧ (¬ p → post () w) := by
  unfold when
  split
  next holds => simp [holds]
  next fails =>
    simp only [fails, false_implies, not_false_eq_true, forall_const, true_and]
    exact Iff.rfl

@[simp] theorem wp_demand {p : Prop} [Decidable p] {e : ε} {post : Unit → World κ ν σ → Prop} :
    Wp (demand p e : Routine κ ν σ ε Unit) post err w ↔ (p → post () w) ∧ (¬ p → err e) := by
  unfold demand
  split
  next holds =>
    simp only [holds, forall_const, not_true_eq_false, false_implies, and_true]
    exact Iff.rfl
  next fails => simp [fails]

end

/-! List operations whose operands are as they should be. -/

section
variable {post : Unit → World κ ν σ → Prop} {err : ε → Prop} {w : World κ ν σ} {n : ν} {a b h : κ}
  {l la lb : List ν}

theorem wp_perform_of_done {op : ListOp κ ν} {S : Rings κ ν} (done : op.apply w.rings = some S)
    (next : post () { w with rings := S }) : Wp (perform op : Routine κ ν σ ε Unit) post err w := by
  refine (wp_perform _ _).mpr ⟨fun R same => ?_, fun none => ?_⟩
  · cases done.symm.trans same
    exact next
  · cases done.symm.trans none

theorem wp_add_of_free (found : w.rings.items h = some l) (free : w.rings.home n = none)
    (next : ∀ R, R.items = update w.rings.items h (some (n :: l)) →
      R.home = update w.rings.home n (some h) → post () { w with rings := R }) :
    Wp (perform (.add n h) : Routine κ ν σ ε Unit) post err w := by
  obtain ⟨S, done, items, home⟩ := Rings.add_of_free found free
  exact wp_perform_of_done done (next S items home)

theorem wp_addTail_of_free (found : w.rings.items h = some l) (free : w.rings.home n = none)
    (next : ∀ R, R.items = update w.rings.items h (some (l ++ [n])) →
      R.home = update w.rings.home n (some h) → post () { w with rings := R }) :
    Wp (perform (.addTail n h) : Routine κ ν σ ε Unit) post err w := by
  obtain ⟨S, done, items, home⟩ := Rings.addTail_of_free found free
  exact wp_perform_of_done done (next S items home)

theorem wp_del_of_home (found : w.rings.items h = some l) (sits : w.rings.home n = some h)
    (next : ∀ R, R.items = update w.rings.items h (some (l.erase n)) →
      R.home = update w.rings.home n none → post () { w with rings := R }) :
    Wp (perform (.del n) : Routine κ ν σ ε Unit) post err w := by
  obtain ⟨S, done, items, home⟩ := Rings.del_of_home found sits
  exact wp_perform_of_done done (next S items home)

theorem wp_spliceInit_of_found (other : a ≠ b) (foundA : w.rings.items a = some la)
    (foundB : w.rings.items b = some lb)
    (next : ∀ R, R.items = update (update w.rings.items a (some [])) b (some (la ++ lb)) →
      (R.home = fun n => if n ∈ la then some b else w.rings.home n) → post () { w with rings := R }) :
    Wp (perform (.spliceInit a b) : Routine κ ν σ ε Unit) post err w := by
  obtain ⟨S, done, items, home⟩ := Rings.spliceInit_of_found other foundA foundB
  exact wp_perform_of_done done (next S items home)

theorem wp_spliceTailInit_of_found (other : a ≠ b) (foundA : w.rings.items a = some la)
    (foundB : w.rings.items b = some lb)
    (next : ∀ R, R.items = update (update w.rings.items a (some [])) b (some (lb ++ la)) →
      (R.home = fun n => if n ∈ la then some b else w.rings.home n) → post () { w with rings := R }) :
    Wp (perform (.spliceTailInit a b) : Routine κ ν σ ε Unit) post err w := by
  obtain ⟨S, done, items, home⟩ := Rings.spliceTailInit_of_found other foundA foundB
  exact wp_perform_of_done done (next S items home)

end

/-! Invariants of routines. -/

/-- Where the routine starts in a state with the property and returns, it has it again. -/
class Keeps (P : World κ ν σ → Prop) (code : Routine κ ν σ ε α) : Prop where
  kept : ∀ w, P w → code.Wp (fun _ v => P v) (fun _ => True) w

section
variable {P : World κ ν σ → Prop}

instance keeps_pure (a : α) : Keeps P (pure a : Routine κ ν σ ε α) := ⟨fun _ holds => holds⟩

instance keeps_ret (a : α) : Keeps P (.ret a : Routine κ ν σ ε α) := keeps_pure a

instance keeps_stop (e : ε) : Keeps P (.stop e : Routine κ ν σ ε α) := ⟨fun _ _ => trivial⟩

instance keeps_bind {code : Routine κ ν σ ε α} {next : α → Routine κ ν σ ε β} [first : Keeps P code]
    [second : ∀ a, Keeps P (next a)] : Keeps P (code >>= next) where
  kept w holds := by
    rw [wp_bind]
    exact wp_post (first.kept w holds) fun a v holds' => (second a).kept v holds'

/-- What follows from a property that a routine keeps. -/
theorem wp_of_kept {code : Routine κ ν σ ε α} [keeps : Keeps P code] {post : α → World κ ν σ → Prop}
    {w : World κ ν σ} (holds : P w) (after : ∀ a v, P v → post a v) : code.Wp post (fun _ => True) w :=
  wp_post (keeps.kept w holds) after

/-- What comes after a step that keeps a property. -/
theorem wp_kept_then {code : Routine κ ν σ ε α} {next : α → Routine κ ν σ ε β} [keeps : Keeps P code]
    {post : β → World κ ν σ → Prop} {w : World κ ν σ} (holds : P w)
    (after : ∀ a v, P v → (next a).Wp post (fun _ => True) v) : (code >>= next).Wp post (fun _ => True) w := by
  rw [wp_bind]
  exact wp_of_kept holds after

/-- The first step keeps the property, and so does whatever follows it. -/
theorem keeps_next {code : Routine κ ν σ ε α} {next : α → Routine κ ν σ ε β} [first : Keeps P code]
    (second : ∀ a, Keeps P (next a)) : Keeps P (code >>= next) := keeps_bind

instance keeps_ite {p : Prop} [Decidable p] {code other : Routine κ ν σ ε α} [yes : Keeps P code]
    [no : Keeps P other] : Keeps P (if p then code else other) := by
  split
  · exact yes
  · exact no

instance keeps_when {p : Prop} [Decidable p] {code : Routine κ ν σ ε Unit} [yes : Keeps P code] :
    Keeps P (when p code) := @keeps_ite _ _ _ _ _ _ _ _ _ _ _ _ _ yes (keeps_pure ())

instance keeps_demand (p : Prop) [Decidable p] (e : ε) : Keeps P (demand p e : Routine κ ν σ ε Unit) :=
  @keeps_ite _ _ _ _ _ _ _ _ _ _ _ _ _ (keeps_pure ()) (keeps_stop e)

instance keeps_data : Keeps P (data : Routine κ ν σ ε σ) := ⟨fun _ holds => holds⟩

instance keeps_head (h : κ) : Keeps P (head h : Routine κ ν σ ε (Option ν)) where
  kept _ holds := (wp_head h _).mpr ⟨fun _ _ => holds, fun _ => trivial⟩

instance keeps_items (h : κ) : Keeps P (items h : Routine κ ν σ ε (List ν)) where
  kept _ holds := (wp_items h _).mpr ⟨fun _ _ => holds, fun _ => trivial⟩

instance keeps_forM {l : List α} {body : α → Routine κ ν σ ε Unit} [each : ∀ a, Keeps P (body a)] :
    Keeps P (l.forM body) := by
  induction l with
  | nil => exact keeps_pure ()
  | cons a rest ih => exact keeps_bind

end

/-- As `Keeps`, where the routine is called in states that meet a condition only. -/
class KeepsFrom (P Q : World κ ν σ → Prop) (code : Routine κ ν σ ε α) : Prop where
  kept : ∀ w, P w → Q w → code.Wp (fun _ v => P v) (fun _ => True) w

/-- A condition on the calls that a loop makes one after the other. -/
def ForEach (guard : α → World κ ν σ → Prop) (body : α → Routine κ ν σ ε Unit) : List α → World κ ν σ → Prop
  | [], _ => True
  | a :: rest, w => guard a w ∧ ∀ v, (body a).run w = .ok ((), v) → ForEach guard body rest v

section
variable {P Q : World κ ν σ → Prop}

instance keepsFrom_of_keeps {code : Routine κ ν σ ε α} [always : Keeps P code] : KeepsFrom P Q code :=
  ⟨fun w holds _ => always.kept w holds⟩

theorem wp_forM_of_each {guard : α → World κ ν σ → Prop} {body : α → Routine κ ν σ ε Unit}
    (kept : ∀ a, KeepsFrom P (guard a) (body a)) {l : List α} {w : World κ ν σ} (holds : P w)
    (each : ForEach guard body l w) : Wp (l.forM body) (fun _ v => P v) (fun _ => True) w := by
  induction l generalizing w with
  | nil => exact holds
  | cons a rest ih =>
    change Wp (body a >>= fun _ => rest.forM body) _ _ w
    rw [wp_bind]
    refine wp_post (wp_and ((kept a).kept w holds each.1) (wp_ran _ w)) fun _ v ⟨holds, ran⟩ => ?_
    exact ih holds (each.2 v ran)

end

/-- The routine does not stop with this error, wherever it starts. -/
class Avoids (e : ε) (code : Routine κ ν σ ε α) : Prop where
  avoids : ∀ w, code.Wp (fun _ _ => True) (fun e' => e' ≠ e) w

section
variable {e : ε}

instance avoids_pure (a : α) : Avoids e (pure a : Routine κ ν σ ε α) := ⟨fun _ => trivial⟩

instance avoids_ret (a : α) : Avoids e (.ret a : Routine κ ν σ ε α) := ⟨fun _ => trivial⟩

theorem avoids_stop {e' : ε} (other : e' ≠ e) : Avoids e (.stop e' : Routine κ ν σ ε α) := ⟨fun _ => other⟩

instance avoids_bind {code : Routine κ ν σ ε α} {next : α → Routine κ ν σ ε β} [first : Avoids e code]
    [second : ∀ a, Avoids e (next a)] : Avoids e (code >>= next) where
  avoids w := by
    rw [wp_bind]
    exact wp_post (first.avoids w) fun a v _ => (second a).avoids v

/-- The first step does not stop with the error, and neither does whatever follows it. -/
theorem avoids_next {code : Routine κ ν σ ε α} {next : α → Routine κ ν σ ε β} [first : Avoids e code]
    (second : ∀ a, Avoids e (next a)) : Avoids e (code >>= next) := avoids_bind

instance avoids_ite {p : Prop} [Decidable p] {code other : Routine κ ν σ ε α} [yes : Avoids e code]
    [no : Avoids e other] : Avoids e (if p then code else other) := by
  split
  · exact yes
  · exact no

instance avoids_when {p : Prop} [Decidable p] {code : Routine κ ν σ ε Unit} [Avoids e code] :
    Avoids e (when p code) := avoids_ite

instance avoids_data : Avoids e (data : Routine κ ν σ ε σ) := ⟨fun _ => trivial⟩

instance avoids_modify (f : σ → σ) : Avoids e (modify f : Routine κ ν σ ε Unit) := ⟨fun _ => trivial⟩

theorem avoids_perform (other : Misuse.misuse ≠ e) (op : ListOp κ ν) :
    Avoids e (perform op : Routine κ ν σ ε Unit) :=
  ⟨fun _ => (wp_perform op _).mpr ⟨fun _ _ => trivial, fun _ => other⟩⟩

theorem avoids_head (other : Misuse.misuse ≠ e) (h : κ) : Avoids e (head h : Routine κ ν σ ε (Option ν)) :=
  ⟨fun _ => (wp_head h _).mpr ⟨fun _ _ => trivial, fun _ => other⟩⟩

end

end Routine
end WebTunnel.Library.Routines
