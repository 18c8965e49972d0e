import Mathlib.Tactic.SplitIfs

/-
  Results that may be errors: when a step after a step gives a value, and when all readings of
  a list do.
-/
namespace DirectiveQuery

universe u

variable {ε α β : Type u}

theorem except_map_eq_ok {x : Except ε α} {f : α → β} {b : β} :
    x.map f = .ok b ↔ ∃ a, x = .ok a ∧ f a = b := by
  cases x <;> simp [Except.map]

theorem except_bind_eq_ok {x : Except ε α} {f : α → Except ε β} {b : β} :
    x >>= f = .ok b ↔ ∃ a, x = .ok a ∧ f a = .ok b := by
  cases x <;> simp [bind, Except.bind]

theorem except_map_eq_error {x : Except ε α} {f : α → β} {e : ε} :
    x.map f = .error e ↔ x = .error e := by
  cases x <;> simp [Except.map]

theorem except_bind_eq_error {x : Except ε α} {f : α → Except ε β} {e : ε} :
    x >>= f = .error e ↔ x = .error e ∨ ∃ a, x = .ok a ∧ f a = .error e := by
  cases x <;> simp [bind, Except.bind]

/-- A check that fails with an error. -/
theorem except_ite_error_eq_ok {c : Prop} [Decidable c] {e : ε} {x : Except ε α} {a : α} :
    (if c then .error e else x) = .ok a ↔ ¬c ∧ x = .ok a := by
  split_ifs with h <;> simp [h]

theorem except_bind_ok {a : α} {f : α → Except ε β} : (.ok a : Except ε α) >>= f = f a := rfl

theorem except_map_ok (a : α) (f : α → β) : (.ok a : Except ε α).map f = .ok (f a) := rfl

theorem except_map_bind {γ : Type u} (x : Except ε α) (f : α → Except ε β) (g : β → γ) :
    (x >>= f).map g = x >>= fun a => (f a).map g := by
  cases x <;> rfl

theorem except_mapError_error {δ : Type u} (e : ε) (g : ε → δ) :
    (.error e : Except ε α).mapError g = .error (g e) := rfl

theorem except_mapError_ok {δ : Type u} (a : α) (g : ε → δ) :
    (.ok a : Except ε α).mapError g = .ok a := rfl

theorem except_map_mapError {δ : Type u} (x : Except ε α) (f : α → β) (g : ε → δ) :
    (x.mapError g).map f = (x.map f).mapError g := by
  cases x <;> rfl

theorem except_mapError_eq_ok {δ : Type u} {x : Except ε α} {g : ε → δ} {a : α} :
    x.mapError g = .ok a ↔ x = .ok a := by
  cases x <;> simp [except_mapError_error, except_mapError_ok]

theorem except_mapError_eq_error {δ : Type u} {x : Except ε α} {g : ε → δ} {d : δ} :
    x.mapError g = .error d ↔ ∃ e, x = .error e ∧ g e = d := by
  cases x <;> simp [except_mapError_error, except_mapError_ok]

theorem except_mapError_bind {δ : Type u} {g : ε → δ} {x : Except ε α} {f : α → Except ε β}
    {f' : α → Except δ β} (h : ∀ a, f' a = (f a).mapError g) :
    x.mapError g >>= f' = (x >>= f).mapError g := by
  cases x with
  | error e => rfl
  | ok a => exact h a

/-- Only what is applied to the value matters. -/
theorem except_map_congr {x : Except ε α} {f g : α → β} (h : ∀ a, x = .ok a → f a = g a) :
    x.map f = x.map g := by
  cases x with
  | error e => rfl
  | ok a => exact congrArg Except.ok (h a rfl)

theorem except_map_map {γ : Type u} (x : Except ε α) (f : α → β) (g : β → γ) :
    (x.map f).map g = x.map fun a => g (f a) := by
  cases x <;> rfl

theorem except_map_eq_map_iff {γ : Type u} {x : Except ε α} {y : Except ε β} {n : α → γ}
    {n' : β → γ} : x.map n = y.map n' ↔
      (∃ e, x = .error e ∧ y = .error e) ∨ ∃ a b, x = .ok a ∧ y = .ok b ∧ n a = n' b := by
  cases x <;> cases y <;> simp [Except.map, eq_comm]

theorem except_map_congr_of {γ δ : Type u} {x : Except ε α} {y : Except ε β} {n : α → γ}
    {n' : β → γ} (h : x.map n = y.map n') {f : α → δ} {g : β → δ}
    (hnext : ∀ a b, n a = n' b → f a = g b) : x.map f = y.map g := by
  obtain ⟨e, rfl, rfl⟩ | ⟨a, b, rfl, rfl, hab⟩ := except_map_eq_map_iff.1 h
  · rfl
  · exact congrArg Except.ok (hnext a b hab)

/-- Two runs that agree after a first step as far as `n` and `n'` can see, and go on alike from
what looks the same to these, agree in the end. -/
theorem except_bind_congr_of {α' β' γ δ : Type u} {x : Except ε α} {y : Except ε β} {n : α → γ}
    {n' : β → γ} (h : x.map n = y.map n') {f : α → Except ε α'} {g : β → Except ε β'}
    {m : α' → δ} {m' : β' → δ} (hnext : ∀ a b, n a = n' b → (f a).map m = (g b).map m') :
    (x >>= f).map m = (y >>= g).map m' := by
  obtain ⟨e, rfl, rfl⟩ | ⟨a, b, rfl, rfl, hab⟩ := except_map_eq_map_iff.1 h
  · rfl
  · exact hnext a b hab

/-- A result is an error for the causes that make it one, if it is a value without a cause. -/
theorem except_eq_error_iff_of {x : Except ε α} {causes : ε → Prop} {values : α → Prop}
    (hcause : ∀ e, causes e → x = .error e) (h : (∃ a, values a ∧ x = .ok a) ∨ ∃ e, causes e)
    {e : ε} : x = .error e ↔ causes e := by
  refine ⟨fun herror => ?_, hcause e⟩
  rcases h with ⟨a, -, rfl⟩ | ⟨d, hd⟩
  · cases herror
  · cases (hcause d hd).symm.trans herror
    exact hd

/-- A value of a result that is an error for some causes is one that it has without a cause. -/
theorem except_values_of_ok {x : Except ε α} {causes : ε → Prop} {values : α → Prop}
    (hcause : ∀ e, causes e → x = .error e) (h : (∃ a, values a ∧ x = .ok a) ∨ ∃ e, causes e)
    {a : α} (hok : x = .ok a) : values a := by
  rcases h with ⟨b, hb, rfl⟩ | ⟨d, hd⟩
  · cases hok
    exact hb
  · cases (hcause d hd).symm.trans hok

theorem except_toOption_eq_some {x : Except ε α} {a : α} : x.toOption = some a ↔ x = .ok a := by
  cases x <;> simp [Except.toOption]

/-- The error, if that is what the result is. -/
def errorOf? : Except ε α → Option ε
  | .ok _ => none
  | .error e => some e

theorem errorOf?_eq_some {x : Except ε α} {e : ε} : errorOf? x = some e ↔ x = .error e := by
  cases x <;> simp [errorOf?]

/-- No two errors are results. -/
theorem except_error_eq_ok_iff {d e : ε} {a b : α} :
    (.error d : Except ε α) = .ok a ↔ (.error e : Except ε α) = .ok b := by
  simp

/-- Every element of a list has a value exactly when the list of them has. -/
theorem mapM_eq_some_iff {f : α → Option β} {as : List α} {bs : List β} :
    as.mapM f = some bs ↔ as.map f = bs.map some := by
  induction as generalizing bs with
  | nil => cases bs <;> simp
  | cons a as ih =>
    rw [List.mapM_cons]
    cases h : f a with
    | none => cases bs <;> simp [h]
    | some b' =>
      cases bs with
      | nil => simp [Option.bind_eq_some_iff]
      | cons b bs => simp [Option.bind_eq_some_iff, h, ih, and_left_comm]

/-- A list is read back element by element. -/
theorem mapM_map_eq_some {γ : Type u} {write : α → β} {read : β → Option γ} {keep : α → γ}
    (h : ∀ a, read (write a) = some (keep a)) (as : List α) :
    (as.map write).mapM read = some (as.map keep) := by
  rw [mapM_eq_some_iff, List.map_map, List.map_map]
  exact List.map_congr_left fun a _ => h a

end DirectiveQuery
