import Mathlib.Logic.Basic

/-! Stateful code that may stop with an error, and the rules of its pre- and
postconditions. A postcondition speaks about every result, an error condition about
every way to stop: with `fun _ => True` the rules give partial correctness, with
`fun _ => False` they give code that certainly returns. -/

namespace WebTunnel.Library.Program

/-- Code over a state `σ` that returns an `α` or stops with an `ε`. -/
abbrev Prog (σ ε α : Type) := StateT σ (Except ε) α

variable {σ ε α β : Type}

/-- Weakest precondition of `code` for a postcondition and an error condition. -/
def Wp (code : Prog σ ε α) (post : α → σ → Prop) (err : ε → Prop) (s : σ) : Prop :=
  match code s with
  | .ok (a, t) => post a t
  | .error e => err e

theorem wp_iff {code : Prog σ ε α} {post : α → σ → Prop} {err : ε → Prop} {s : σ} :
    Wp code post err s ↔
      (∀ a t, code s = .ok (a, t) → post a t) ∧ (∀ e, code s = .error e → err e) := by
  unfold Wp
  cases run : code s with
  | ok result => simp only [Except.ok.injEq, reduceCtorEq, false_implies, implies_true, and_true]
                 exact ⟨fun h a t same => by cases same; exact h, fun h => h _ _ rfl⟩
  | error e => simp

theorem wp_of_run {code : Prog σ ε α} {post : α → σ → Prop} {err : ε → Prop} {s t : σ} {a : α}
    (run : code s = .ok (a, t)) (wp : Wp code post err s) : post a t :=
  (wp_iff.mp wp).1 a t run

/-- With the empty error condition the code returns, in a state that satisfies the postcondition. -/
theorem wp_total {code : Prog σ ε α} {post : α → σ → Prop} {s : σ} :
    Wp code post (fun _ => False) s ↔ ∃ a t, code s = .ok (a, t) ∧ post a t := by
  unfold Wp
  cases run : code s with
  | ok result =>
    exact ⟨fun h => ⟨result.1, result.2, rfl, h⟩, fun ⟨a, t, same, h⟩ => by cases same; exact h⟩
  | error e => simp

theorem wp_mono {code : Prog σ ε α} {post post' : α → σ → Prop} {err err' : ε → Prop} {s : σ}
    (wp : Wp code post err s) (weaker : ∀ a t, post a t → post' a t)
    (weakerErr : ∀ e, err e → err' e) : Wp code post' err' s := by
  rw [wp_iff] at wp ⊢
  exact ⟨fun a t run => weaker a t (wp.1 a t run), fun e run => weakerErr e (wp.2 e run)⟩

theorem wp_and {code : Prog σ ε α} {post post' : α → σ → Prop} {err err' : ε → Prop} {s : σ}
    (first : Wp code post err s) (second : Wp code post' err' s) :
    Wp code (fun a t => post a t ∧ post' a t) (fun e => err e ∧ err' e) s := by
  rw [wp_iff] at first second ⊢
  exact ⟨fun a t run => ⟨first.1 a t run, second.1 a t run⟩, fun e run => ⟨first.2 e run, second.2 e run⟩⟩

/-- Strengthening the postcondition only, the form in which callers cite a specification. -/
theorem wp_post {code : Prog σ ε α} {post post' : α → σ → Prop} {err : ε → Prop} {s : σ}
    (wp : Wp code post err s) (weaker : ∀ a t, post a t → post' a t) : Wp code post' err s :=
  wp_mono wp weaker (fun _ h => h)

@[simp] theorem wp_pure (a : α) (post : α → σ → Prop) (err : ε → Prop) (s : σ) :
    Wp (pure a) post err s ↔ post a s := Iff.rfl

@[simp] theorem wp_bind (code : Prog σ ε α) (next : α → Prog σ ε β) (post : β → σ → Prop)
    (err : ε → Prop) (s : σ) :
    Wp (code >>= next) post err s ↔ Wp code (fun a t => Wp (next a) post err t) err s := by
  simp only [Wp, bind, StateT.bind, Except.bind]
  cases run : code s with
  | ok result => rfl
  | error e => rfl

@[simp] theorem wp_map (code : Prog σ ε α) (f : α → β) (post : β → σ → Prop)
    (err : ε → Prop) (s : σ) :
    Wp (f <$> code) post err s ↔ Wp code (fun a t => post (f a) t) err s := by
  rw [map_eq_pure_bind, wp_bind]
  rfl

@[simp] theorem wp_get (post : σ → σ → Prop) (err : ε → Prop) (s : σ) :
    Wp (get : Prog σ ε σ) post err s ↔ post s s := Iff.rfl

@[simp] theorem wp_set (t : σ) (post : PUnit → σ → Prop) (err : ε → Prop) (s : σ) :
    Wp (set t : Prog σ ε PUnit) post err s ↔ post ⟨⟩ t := Iff.rfl

@[simp] theorem wp_modify (f : σ → σ) (post : PUnit → σ → Prop) (err : ε → Prop) (s : σ) :
    Wp (modify f : Prog σ ε PUnit) post err s ↔ post ⟨⟩ (f s) := Iff.rfl

@[simp] theorem wp_throw (e : ε) (post : α → σ → Prop) (err : ε → Prop) (s : σ) :
    Wp (throw e : Prog σ ε α) post err s ↔ err e := Iff.rfl

theorem wp_ite {p : Prop} [Decidable p] (code other : Prog σ ε α) (post : α → σ → Prop)
    (err : ε → Prop) (s : σ) :
    Wp (if p then code else other) post err s ↔
      if p then Wp code post err s else Wp other post err s := by
  split <;> rfl

/-- Where the code starts in a state with the property and returns, it has it again. -/
class Keeps (P : σ → Prop) (code : Prog σ ε α) : Prop where
  kept : ∀ s, P s → Wp code (fun _ t => P t) (fun _ => True) s

section
variable {P : σ → Prop}

instance keeps_pure (a : α) : Keeps P (pure a : Prog σ ε α) := ⟨fun _ holds => holds⟩

instance keeps_throw (e : ε) : Keeps P (throw e : Prog σ ε α) := ⟨fun _ _ => trivial⟩

instance keeps_get : Keeps P (get : Prog σ ε σ) := ⟨fun _ holds => holds⟩

instance keeps_bind {code : Prog σ ε α} {next : α → Prog σ ε β} [first : Keeps P code]
    [second : ∀ a, Keeps P (next a)] : Keeps P (code >>= next) where
  kept s holds := by
    rw [wp_bind]
    exact wp_post (first.kept s holds) fun a t holds' => (second a).kept t holds'

/-- The first step keeps the property, and so does whatever follows it. -/
theorem keeps_next {code : Prog σ ε α} {next : α → Prog σ ε β} [first : Keeps P code]
    (second : ∀ a, Keeps P (next a)) : Keeps P (code >>= next) := keeps_bind

instance keeps_ite {p : Prop} [Decidable p] {code other : Prog σ ε α} [yes : Keeps P code]
    [no : Keeps P other] : Keeps P (if p then code else other) := by
  split
  · exact yes
  · exact no

/-- What comes after a step that keeps a property. -/
theorem wp_kept_then {code : Prog σ ε α} {next : α → Prog σ ε β} [keeps : Keeps P code]
    {post : β → σ → Prop} {s : σ} (holds : P s)
    (after : ∀ a t, P t → Wp (next a) post (fun _ => True) t) : Wp (code >>= next) post (fun _ => True) s := by
  rw [wp_bind]
  exact wp_post (keeps.kept s holds) after

end

end WebTunnel.Library.Program
