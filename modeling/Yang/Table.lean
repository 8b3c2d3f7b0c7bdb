/-!
# Tables

A table is a list of keys with their values, in the order in which the keys came.
Putting a value replaces the value that its key had, or appends a new key.
-/

namespace Yang.Table

variable {α β : Type} [BEq α]

def put (k : α) (v : β) : List (α × β) → List (α × β)
  | [] => [(k, v)]
  | (l, w) :: rest => if k == l then (k, v) :: rest else (l, w) :: put k v rest

def erase (k : α) (t : List (α × β)) : List (α × β) := t.filter fun (l, _) => !(k == l)

@[simp] theorem lookup_put_self [LawfulBEq α] (k : α) (v : β) (t : List (α × β)) :
    (put k v t).lookup k = some v := by
  induction t with
  | nil => simp [put]
  | cons entry rest ih =>
    obtain ⟨l, w⟩ := entry
    unfold put
    split
    · simp
    · rename_i other
      rw [List.lookup_cons]
      simp only [other, ih]

theorem lookup_put_of_ne [LawfulBEq α] {j k : α} (v : β) (t : List (α × β)) (h : j ≠ k) :
    (put k v t).lookup j = t.lookup j := by
  have other : (j == k) = false := beq_eq_false_iff_ne.mpr h
  induction t with
  | nil => simp [put, List.lookup_cons, other]
  | cons entry rest ih =>
    obtain ⟨l, w⟩ := entry
    unfold put
    split
    · rename_i equal
      have : k = l := by simpa using equal
      subst this
      simp [List.lookup_cons, other]
    · simp only [List.lookup_cons, ih]

end Yang.Table
