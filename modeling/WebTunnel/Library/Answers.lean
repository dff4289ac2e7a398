import WebTunnel.Library.Routines

/-! The meaning of a routine over its data alone, where what the lists are found to hold is
answered from outside. A property that is proved here holds whatever becomes of the lists,
also when their links are broken. -/

namespace WebTunnel.Library.Routines.Routine

variable {κ ν σ ε α β : Type}

/-- The routine with the lists' answers, one after the other; without one a list is empty. -/
def answered : Routine κ ν σ ε α → List (List ν) → σ → Except ε (α × List (List ν) × σ)
  | .ret a, lists, s => .ok (a, lists, s)
  | .stop e, _, _ => .error e
  | .load next, lists, s => (next s).answered lists s
  | .store s next, lists, _ => next.answered lists s
  | .link _ next, lists, s => next.answered lists s
  | .first _ next, lists, s => (next (lists.headD []).head?).answered lists.tail s
  | .walk _ next, lists, s => (next (lists.headD [])).answered lists.tail s

/-- Weakest precondition over the data, whatever the lists answer. -/
def Every (code : Routine κ ν σ ε α) (post : α → σ → Prop) (err : ε → Prop) (s : σ) : Prop :=
  match code with
  | .ret a => post a s
  | .stop e => err e
  | .load next => (next s).Every post err s
  | .store t next => next.Every post err t
  | .link _ next => next.Every post err s
  | .first _ next => ∀ n, (next n).Every post err s
  | .walk _ next => ∀ l, (next l).Every post err s

section
variable {code : Routine κ ν σ ε α} {post post' : α → σ → Prop} {err err' : ε → Prop} {s t : σ}

theorem every_answered (every : code.Every post err s) (lists : List (List ν)) :
    (∀ a rest v, code.answered lists s = .ok (a, rest, v) → post a v) ∧
      (∀ e, code.answered lists s = .error e → err e) := by
  induction code generalizing s lists with
  | ret a =>
    refine ⟨fun _ _ _ same => ?_, by rintro _ ⟨⟩⟩
    cases same
    exact every
  | stop e =>
    refine ⟨nofun, fun _ same => ?_⟩
    cases same
    exact every
  | load next ih => exact ih s every lists
  | store t next ih => exact ih every lists
  | link op next ih => exact ih every lists
  | first h next ih => exact ih _ (every _) _
  | walk h next ih => exact ih _ (every _) _

theorem every_mono (every : code.Every post err s) (weaker : ∀ a t, post a t → post' a t)
    (weakerErr : ∀ e, err e → err' e) : code.Every post' err' s := by
  induction code generalizing s with
  | ret a => exact weaker a s every
  | stop e => exact weakerErr e every
  | load next ih => exact ih s every
  | store t next ih => exact ih every
  | link op next ih => exact ih every
  | first h next ih => exact fun n => ih n (every n)
  | walk h next ih => exact fun l => ih l (every l)

theorem every_post (every : code.Every post err s) (weaker : ∀ a t, post a t → post' a t) :
    code.Every post' err s := every_mono every weaker fun _ h => h

/-- Two postconditions together, of which one speaks about routines that return only. -/
theorem every_and (first : code.Every post err s) (second : code.Every post' (fun _ => True) s) :
    code.Every (fun a t => post a t ∧ post' a t) err s := by
  induction code generalizing s with
  | ret a => exact ⟨first, second⟩
  | stop e => exact first
  | load next ih => exact ih s first second
  | store t next ih => exact ih first second
  | link op next ih => exact ih first second
  | first h next ih => exact fun n => ih n (first n) (second n)
  | walk h next ih => exact fun l => ih l (first l) (second l)

theorem every_of_forall (always : ∀ a t, post a t) : code.Every post (fun _ => True) s := by
  induction code generalizing s with
  | ret a => exact always a s
  | stop e => trivial
  | load next ih => exact ih s
  | store t next ih => exact ih
  | link op next ih => exact ih
  | first h next ih => exact fun n => ih n
  | walk h next ih => exact fun l => ih l

/-- The meaning over lists is one of the meanings over the data. -/
theorem answered_of_run [DecidableEq κ] [DecidableEq ν] [Misuse ε] {w v : World κ ν σ} {a : α}
    (ran : code.run w = .ok (a, v)) : ∃ lists, code.answered lists w.data = .ok (a, [], v.data) := by
  induction code generalizing w with
  | ret b =>
    cases ran
    exact ⟨[], rfl⟩
  | stop e => cases ran
  | load next ih => exact ih w.data ran
  | store t next ih => exact ih (w := ⟨t, w.rings⟩) ran
  | link op next ih =>
    rw [run] at ran
    cases done : op.apply w.rings with
    | none => rw [done] at ran; cases ran
    | some R =>
      rw [done] at ran
      exact ih (w := ⟨w.data, R⟩) ran
  | first h next ih =>
    rw [run] at ran
    cases found : w.rings.items h with
    | none => rw [found] at ran; cases ran
    | some l =>
      rw [found] at ran
      obtain ⟨lists, done⟩ := ih _ ran
      exact ⟨l :: lists, done⟩
  | walk h next ih =>
    rw [run] at ran
    cases found : w.rings.items h with
    | none => rw [found] at ran; cases ran
    | some l =>
      rw [found] at ran
      obtain ⟨lists, done⟩ := ih _ ran
      exact ⟨l :: lists, done⟩

@[simp] theorem every_pure (a : α) : Every (pure a : Routine κ ν σ ε α) post err s ↔ post a s := Iff.rfl

@[simp] theorem every_bind (code : Routine κ ν σ ε α) (next : α → Routine κ ν σ ε β) (post : β → σ → Prop) :
    Every (code >>= next) post err s ↔ code.Every (fun a t => (next a).Every post err t) err s := by
  change Every (code.bind next) post err s ↔ _
  induction code generalizing s with
  | ret a => rfl
  | stop e => rfl
  | load more ih => exact ih s
  | store t more ih => exact ih
  | link op more ih => exact ih
  | first h more ih => exact forall_congr' fun n => ih n
  | walk h more ih => exact forall_congr' fun l => ih l

@[simp] theorem every_data (post : σ → σ → Prop) :
    Every (data : Routine κ ν σ ε σ) post err s ↔ post s s := Iff.rfl

@[simp] theorem every_modify (f : σ → σ) (post : Unit → σ → Prop) :
    Every (modify f : Routine κ ν σ ε Unit) post err s ↔ post () (f s) := Iff.rfl

@[simp] theorem every_perform (op : ListOp κ ν) (post : Unit → σ → Prop) :
    Every (perform op : Routine κ ν σ ε Unit) post err s ↔ post () s := Iff.rfl

@[simp] theorem every_head (h : κ) (post : Option ν → σ → Prop) :
    Every (head h : Routine κ ν σ ε (Option ν)) post err s ↔ ∀ n, post n s := Iff.rfl

@[simp] theorem every_items (h : κ) (post : List ν → σ → Prop) :
    Every (items h : Routine κ ν σ ε (List ν)) post err s ↔ ∀ l, post l s := Iff.rfl

theorem every_ite {p : Prop} [Decidable p] (code other : Routine κ ν σ ε α) :
    Every (if p then code else other) post err s ↔ if p then code.Every post err s else other.Every post err s := by
  split <;> rfl

/-- What a routine ends with does not depend on how it began. -/
theorem every_next {code : Routine κ ν σ ε α} {next : α → Routine κ ν σ ε β} {post : β → σ → Prop}
    (after : ∀ a t, (next a).Every post (fun _ => True) t) : (code >>= next).Every post (fun _ => True) s := by
  rw [every_bind]
  exact every_of_forall after

theorem every_when {p : Prop} [Decidable p] (code : Routine κ ν σ ε Unit) {post : Unit → σ → Prop} :
    Every (when p code) post err s ↔ (p → code.Every post err s) ∧ (¬ p → post () s) := by
  unfold when
  split
  next holds => simp [holds]
  next fails =>
    simp only [fails, false_implies, not_false_eq_true, forall_const, true_and]
    exact Iff.rfl

@[simp] theorem every_demand {p : Prop} [Decidable p] {e : ε} {post : Unit → σ → Prop} :
    Every (demand p e : Routine κ ν σ ε Unit) post err s ↔ (p → post () s) ∧ (¬ p → err e) := by
  unfold demand
  split
  next holds =>
    simp only [holds, forall_const, not_true_eq_false, false_implies, and_true]
    exact Iff.rfl
  next fails =>
    simp only [fails, false_implies, not_false_eq_true, forall_const, true_and]
    exact Iff.rfl

end

/-! Routines that move the data along a relation only. -/

/-- Wherever the routine starts and whatever the lists answer, it ends in a state that the
relation leads to, or stops with an error that is put up with. -/
class Along (R : σ → σ → Prop) (err : ε → Prop) (code : Routine κ ν σ ε α) : Prop where
  along : ∀ s, code.Every (fun _ t => R s t) err s

section
variable {R : σ → σ → Prop} {err : ε → Prop}

theorem along_of_weaker {R' : σ → σ → Prop} {code : Routine κ ν σ ε α} [moves : Along R err code]
    (weaker : ∀ s t, R s t → R' s t) : Along R' err code :=
  ⟨fun s => every_post (moves.along s) fun _ t => weaker s t⟩

instance along_pure [Std.Refl R] (a : α) : Along R err (pure a : Routine κ ν σ ε α) := ⟨fun s => Std.Refl.refl s⟩

instance along_ret [Std.Refl R] (a : α) : Along R err (.ret a : Routine κ ν σ ε α) := along_pure a

theorem along_stop {e : ε} (accepted : err e) : Along R err (.stop e : Routine κ ν σ ε α) := ⟨fun _ => accepted⟩

instance along_bind [IsTrans σ R] {code : Routine κ ν σ ε α} {next : α → Routine κ ν σ ε β}
    [first : Along R err code] [second : ∀ a, Along R err (next a)] : Along R err (code >>= next) where
  along s := by
    rw [every_bind]
    exact every_post (first.along s) fun a t moved =>
      every_post ((second a).along t) fun _ u further => IsTrans.trans s t u moved further

/-- The first step moves along the relation, and so does whatever follows it. -/
theorem along_next [IsTrans σ R] {code : Routine κ ν σ ε α} {next : α → Routine κ ν σ ε β}
    [first : Along R err code] (second : ∀ a, Along R err (next a)) : Along R err (code >>= next) := along_bind

instance along_ite {p : Prop} [Decidable p] {code other : Routine κ ν σ ε α} [yes : Along R err code]
    [no : Along R err other] : Along R err (if p then code else other) := by
  split
  · exact yes
  · exact no

instance along_when [Std.Refl R] {p : Prop} [Decidable p] {code : Routine κ ν σ ε Unit} [yes : Along R err code] :
    Along R err (when p code) := @along_ite _ _ _ _ _ _ _ _ _ _ _ yes (along_pure ())

theorem along_demand [Std.Refl R] {e : ε} (accepted : err e) (p : Prop) [Decidable p] :
    Along R err (demand p e : Routine κ ν σ ε Unit) :=
  @along_ite _ _ _ _ _ _ _ _ _ _ _ (along_pure ()) (along_stop accepted)

instance along_data [Std.Refl R] : Along R err (data : Routine κ ν σ ε σ) := ⟨fun s => Std.Refl.refl s⟩

instance along_perform [Std.Refl R] (op : ListOp κ ν) : Along R err (perform op : Routine κ ν σ ε Unit) :=
  ⟨fun s => Std.Refl.refl s⟩

instance along_head [Std.Refl R] (h : κ) : Along R err (head h : Routine κ ν σ ε (Option ν)) :=
  ⟨fun s _ => Std.Refl.refl s⟩

instance along_items [Std.Refl R] (h : κ) : Along R err (items h : Routine κ ν σ ε (List ν)) :=
  ⟨fun s _ => Std.Refl.refl s⟩

theorem along_modify {f : σ → σ} (moves : ∀ s, R s (f s)) : Along R err (modify f : Routine κ ν σ ε Unit) := ⟨moves⟩

instance along_forM [Std.Refl R] [IsTrans σ R] {l : List α} {body : α → Routine κ ν σ ε Unit}
    [each : ∀ a, Along R err (body a)] : Along R err (l.forM body) := by
  induction l with
  | nil => exact along_pure ()
  | cons a rest ih => exact along_bind

/-- What comes after code that moves along the relation. -/
theorem every_along_then [IsTrans σ R] {code : Routine κ ν σ ε α} {next : α → Routine κ ν σ ε β}
    [moves : Along R err code] {post : β → σ → Prop} {s t : σ} (before : R s t)
    (after : ∀ a u, R s u → (next a).Every post err u) : (code >>= next).Every post err t := by
  rw [every_bind]
  exact every_post (moves.along t) fun a u moved => after a u (IsTrans.trans s t u before moved)

end

end WebTunnel.Library.Routines.Routine
