import Yang.Proofs.Success
import Yang.Value

/-!
# Literals without a value

A literal that a built-in type does not read is at fault itself, whatever the type: no other
kind of error comes from reading it. So a union can tell such a rejection from a limit that
is exceeded.
-/

namespace Yang

/-- If the computation fails, then with an error of such a kind. It says nothing
about whether it fails. -/
def FailsOnly {α : Type} (p : ErrorKind → Prop) (x : Except Error α) : Prop :=
  ∀ e, x = .error e → p e.kind

namespace FailsOnly

variable {α β : Type} {p q : ErrorKind → Prop} {x : Except Error α}

theorem ok (a : α) : FailsOnly p (.ok a : Except Error α) := by
  intro e h
  cases h

theorem error {e : Error} (h : p e.kind) : FailsOnly p (.error e : Except Error α) := by
  rintro e' ⟨⟩
  exact h

theorem bind {f : α → Except Error β} (hx : FailsOnly p x) (hf : ∀ a, FailsOnly p (f a)) :
    FailsOnly p (x >>= f) := by
  intro e h
  rcases bind_eq_error_iff.mp h with hfirst | ⟨a, -, hnext⟩
  · exact hx e hfirst
  · exact hf a e hnext

theorem map (f : α → β) (hx : FailsOnly p x) : FailsOnly p (f <$> x) := by
  intro e h
  cases x with
  | error e' =>
      obtain rfl := Except.error.inj h
      exact hx _ rfl
  | ok a => cases h

theorem mono (hx : FailsOnly p x) (h : ∀ kind, p kind → q kind) : FailsOnly q x :=
  fun e he => h e.kind (hx e he)

end FailsOnly

/-- If the computation fails, then because of a literal. -/
abbrev FaultsOnly {α : Type} (x : Except Error α) : Prop := FailsOnly (· = .literalFormat) x

namespace Literal

theorem faultsOnly_integerOf (t : IntegerType) (raw : String) :
    FaultsOnly (integerOf t raw) := by
  have hinteger : FaultsOnly (integer raw) := by
    simp only [integer]
    split
    · exact .error rfl
    · split
      · exact .ok _
      · exact .error rfl
  rw [integerOf]
  split
  · rename_i e he
    exact .error (hinteger e he)
  · split
    · exact .ok _
    · exact .error rfl

theorem faultsOnly_decimal64 (raw : String) : FaultsOnly (decimal64 raw) := by
  rw [decimal64]
  split
  · exact .error rfl
  · split
    · exact .error rfl
    · split
      · exact .ok _
      · exact .error rfl

theorem faultsOnly_boolean (raw : String) : FaultsOnly (boolean raw) := by
  rw [boolean]
  split
  · exact .ok _
  · split
    · exact .ok _
    · exact .error rfl

theorem faultsOnly_binary (raw : String) : FaultsOnly (binary raw) := by
  rw [binary]
  split
  · exact .ok _
  · exact .error rfl

theorem faultsOnly_collectBits (seen names : List String) :
    FaultsOnly (collectBits seen names) := by
  induction names generalizing seen with
  | nil => exact .ok _
  | cons name rest ih =>
      rw [collectBits]
      split
      · exact ih _
      · exact .error rfl

theorem faultsOnly_checkEnumName (raw : String) : FaultsOnly (checkEnumName raw) := by
  rw [checkEnumName]
  split
  · exact .ok _
  · exact .error rfl

theorem faultsOnly_checkIdentity (raw : String) : FaultsOnly (checkIdentity raw) := by
  rw [checkIdentity]
  split
  · exact .ok _
  · exact .error rfl

theorem faultsOnly_checkInstancePath (raw : String) : FaultsOnly (checkInstancePath raw) := by
  rw [checkInstancePath]
  split
  · exact .ok _
  · exact .error rfl

end Literal

namespace Value

open Literal

/-- A type rejects a literal only because of the literal. So ranges and limits
are never at fault below the types. -/
theorem faultsOnly_parse (raw : String) (t : Builtin) : FaultsOnly (parse raw t) := by
  cases t with
  | integer t => exact (faultsOnly_integerOf t raw).bind fun _ => .ok _
  | decimal64 => exact (faultsOnly_decimal64 raw).map _
  | string => exact .ok _
  | boolean => exact (faultsOnly_boolean raw).map _
  | binary => exact (faultsOnly_binary raw).map _
  | bits => exact (faultsOnly_collectBits [] (Text.words raw)).map _
  | enumeration => exact (faultsOnly_checkEnumName raw).bind fun _ => .ok _
  | identityref => exact (faultsOnly_checkIdentity raw).bind fun _ => .ok _
  | instanceIdentifier => exact (faultsOnly_checkInstancePath raw).bind fun _ => .ok _
  | empty =>
      rw [parse]
      split
      · exact .ok _
      · split
        · exact .ok _
        · exact .error rfl
  | _ => exact .error rfl

end Value

end Yang
