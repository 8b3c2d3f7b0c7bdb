import Yang.Error
import Yang.Json.Value

/-!
# Limits

Five quantities of the input are bounded. A check passes up to the bound itself. A
configuration may give the bounds as a JSON object, whose missing members take their
default and whose unknown members are skipped unread, or as an array of the bounds in
order, of which the last may be missing.
-/

namespace Yang

/-- The bound of each quantity. A bound is the greatest number that is still
accepted. -/
structure Limits where
  derivationDepth : Nat := 64
  pathDepth : Nat := 256
  keyLeaves : Nat := 32
  payloadSize : Nat := 16 * 1024 * 1024
  dataDepth : Nat := 512
deriving DecidableEq, Repr

namespace Limits

/-- Bounds for input that is not trusted. -/
def strict : Limits :=
  { derivationDepth := 16, pathDepth := 64, keyLeaves := 8, payloadSize := 1024 * 1024,
    dataDepth := 64 }

/-- Bounds for input that is trusted. -/
def permissive : Limits :=
  { derivationDepth := 1024, pathDepth := 4096, keyLeaves := 256,
    payloadSize := 512 * 1024 * 1024, dataDepth := 8192 }

def bound (limits : Limits) : Quantity → Nat
  | .derivationDepth => limits.derivationDepth
  | .pathDepth => limits.pathDepth
  | .keyLeaves => limits.keyLeaves
  | .payloadSize => limits.payloadSize
  | .dataDepth => limits.dataDepth

/-- Fail if a quantity is past its bound. -/
def check (limits : Limits) (q : Quantity) (n : Nat) : Except Error Unit :=
  if n ≤ limits.bound q then .ok () else .error (.limitExceeded q n (limits.bound q))

@[simp] theorem check_eq_ok_iff {limits : Limits} {q : Quantity} {n : Nat} :
    limits.check q n = .ok () ↔ n ≤ limits.bound q := by
  unfold check
  split <;> simp_all

theorem check_eq_error_iff {limits : Limits} {q : Quantity} {n : Nat} {e : Error} :
    limits.check q n = .error e ↔
      limits.bound q < n ∧ e = .limitExceeded q n (limits.bound q) := by
  unfold check
  split
  · rename_i hle
    simp [Nat.not_lt.mpr hle]
  · rename_i hgt
    simp [Nat.not_le.mp hgt, eq_comm]

/-- The quantities in the order of their bounds. -/
def quantities : List Quantity :=
  [.derivationDepth, .pathDepth, .keyLeaves, .payloadSize, .dataDepth]

/-- The name of the bound of a quantity in a configuration. -/
def boundName : Quantity → String
  | .derivationDepth => "max_derivation_depth"
  | .pathDepth => "max_path_depth"
  | .keyLeaves => "max_key_leafs"
  | .payloadSize => "max_payload_size"
  | .dataDepth => "max_data_depth"

def withBound (limits : Limits) (n : Nat) : Quantity → Limits
  | .derivationDepth => { limits with derivationDepth := n }
  | .pathDepth => { limits with pathDepth := n }
  | .keyLeaves => { limits with keyLeaves := n }
  | .payloadSize => { limits with payloadSize := n }
  | .dataDepth => { limits with dataDepth := n }

/-- A bound in a configuration: a whole number of at most sixty-four bits. -/
def boundOf? : Json.Written → Option Nat
  | .number n =>
    match Json.Number.ofNumeral? n with
    | some (.integer (.ofNat k)) => some k
    | _ => none
  | _ => none

/-- Read the members of a configuration. A bound that is given twice is refused. -/
def ofMembers? (limits : Limits) (given : List Quantity) :
    List (List Json.Piece × Json.Written) → Option Limits
  | [] => some limits
  | (name, w) :: rest =>
    match Json.text? name with
    | none => none
    | some name =>
      match quantities.find? (boundName · == name) with
      | none => ofMembers? limits given rest
      | some q =>
        if q ∈ given then none
        else
          match boundOf? w with
          | none => none
          | some n => ofMembers? (limits.withBound n q) (q :: given) rest

/-- Read bounds in their order. More than there are quantities are refused. -/
def ofItems? (limits : Limits) : List Quantity → List Json.Written → Option Limits
  | _, [] => some limits
  | [], _ :: _ => none
  | q :: qs, w :: ws =>
    match boundOf? w with
    | none => none
    | some n => ofItems? (limits.withBound n q) qs ws

def ofWritten? : Json.Written → Option Limits
  | .object members => ofMembers? {} [] members
  | .array items => ofItems? {} quantities items
  | _ => none

def read (text : String) : Except Error Limits :=
  match (Json.Written.read? text).bind ofWritten? with
  | some limits => .ok limits
  | none => .error .malformedJson

end Limits

/-- The configuration of a registry. -/
structure Configuration where
  limits : Limits := {}
deriving DecidableEq, Repr

namespace Configuration

/-- Read the members of a configuration; limits that are given twice are
refused. -/
def ofMembers? (found : Option Limits) :
    List (List Json.Piece × Json.Written) → Option Configuration
  | [] => some ⟨found.getD {}⟩
  | (name, w) :: rest =>
    match Json.text? name with
    | none => none
    | some name =>
      if name = "limits" then
        match found, Limits.ofWritten? w with
        | none, some limits => ofMembers? (some limits) rest
        | _, _ => none
      else ofMembers? found rest

def ofWritten? : Json.Written → Option Configuration
  | .object members => ofMembers? none members
  | .array [] => some {}
  | .array [w] => (Limits.ofWritten? w).map Configuration.mk
  | _ => none

def read (text : String) : Except Error Configuration :=
  match (Json.Written.read? text).bind ofWritten? with
  | some configuration => .ok configuration
  | none => .error .malformedJson

end Configuration

end Yang
