import Mathlib.Order.MinMax
import Yang.Proofs.Codec.Context
import Yang.Proofs.Success

/-!
# Levels of the data

Reading and writing go one level of the data further with every step down, and each codec
compares the level with the limit as it goes. The first level past the limit ends the whole
work, so a codec gives its result exactly if it stops before that level: `Codec.within` is
this outcome, and the outcome of steps one after the other is that of the one that goes
further down. For XML the levels are those of the nodes. JSON counts objects, and a node
opens one even if it has no children.
-/

namespace Yang

namespace TypeSpec

mutual

/-- Of all limits only that on derivations matters for a literal. -/
theorem readAt_congr {limits limits' : Limits}
    (h : limits.check .derivationDepth = limits'.check .derivationDepth) (raw : String)
    (depth : Nat) :
    ∀ type : TypeSpec, readAt limits raw depth type = readAt limits' raw depth type
  | .builtin type range => by rw [readAt, readAt, h]
  | .derived name base own location use => by
      rw [readAt, readAt, h, readAt_congr h raw (depth + 1) base]
  | .leafref path target => by rw [readAt, readAt, h, readAt_congr h raw (depth + 1) target]
  | .union members => by rw [readAt, readAt, h, readFirst_congr h raw (depth + 1) members]

theorem readFirst_congr {limits limits' : Limits}
    (h : limits.check .derivationDepth = limits'.check .derivationDepth) (raw : String)
    (depth : Nat) :
    ∀ members : List TypeSpec,
      readFirst limits raw depth members = readFirst limits' raw depth members
  | [] => rfl
  | member :: rest => by
      rw [readFirst, readFirst, readAt_congr h raw depth member, readFirst_congr h raw depth rest]

end

end TypeSpec

namespace Instance.DataNode

mutual

/-- How many objects the JSON form of a node opens on the longest way down, the
one included that the node is a member of. A node without children still opens
one. -/
def objectDepth : DataNode → Nat
  | .inner _ children => max 1 (objectDepthOfAll children) + 1
  | .leaf _ _ => 1

def objectDepthOfAll : List DataNode → Nat
  | [] => 0
  | n :: ns => max n.objectDepth (objectDepthOfAll ns)

end

theorem lt_depthOfAll_iff {nodes : List DataNode} {bound : Nat} :
    bound < depthOfAll nodes ↔ ∃ n ∈ nodes, bound < n.depth := by
  induction nodes with
  | nil => simp [depthOfAll]
  | cons n ns ih => rw [depthOfAll, lt_max_iff, ih, List.exists_mem_cons_iff]

theorem lt_objectDepthOfAll_iff {nodes : List DataNode} {bound : Nat} :
    bound < objectDepthOfAll nodes ↔ ∃ n ∈ nodes, bound < n.objectDepth := by
  induction nodes with
  | nil => simp [objectDepthOfAll]
  | cons n ns ih => rw [objectDepthOfAll, lt_max_iff, ih, List.exists_mem_cons_iff]

theorem depthOfAll_append (ms ns : List DataNode) :
    depthOfAll (ms ++ ns) = max (depthOfAll ms) (depthOfAll ns) := by
  induction ms with
  | nil => rw [List.nil_append, depthOfAll, Nat.zero_max]
  | cons m ms ih => rw [List.cons_append, depthOfAll, depthOfAll, ih, Nat.max_assoc]

theorem objectDepthOfAll_append (ms ns : List DataNode) :
    objectDepthOfAll (ms ++ ns) = max (objectDepthOfAll ms) (objectDepthOfAll ns) := by
  induction ms with
  | nil => rw [List.nil_append, objectDepthOfAll, Nat.zero_max]
  | cons m ms ih => rw [List.cons_append, objectDepthOfAll, objectDepthOfAll, ih, Nat.max_assoc]

mutual

/-- JSON counts at most one level more than there are nodes. -/
theorem objectDepth_bounds : ∀ n : DataNode,
    n.depth ≤ n.objectDepth ∧ n.objectDepth ≤ n.depth + 1
  | .leaf _ _ => by simp [depth, objectDepth]
  | .inner _ children => by
      obtain ⟨hlower, hupper⟩ := objectDepthOfAll_bounds children
      rw [depth, objectDepth]
      omega

theorem objectDepthOfAll_bounds : ∀ nodes : List DataNode,
    depthOfAll nodes ≤ objectDepthOfAll nodes ∧ objectDepthOfAll nodes ≤ depthOfAll nodes + 1
  | [] => by simp [depthOfAll, objectDepthOfAll]
  | n :: ns => by
      obtain ⟨hlower, hupper⟩ := objectDepth_bounds n
      obtain ⟨hlower', hupper'⟩ := objectDepthOfAll_bounds ns
      rw [depthOfAll, objectDepthOfAll]
      omega

end

/-- Every node that may have children has some. -/
inductive Filled : DataNode → Prop
  | leaf (key : Key) (value : Value) : Filled (.leaf key value)
  | inner {key : Key} {children : List DataNode} (hne : children ≠ [])
      (below : ∀ child ∈ children, Filled child) : Filled (.inner key children)

theorem objectDepthOfAll_pos {nodes : List DataNode} (h : nodes ≠ []) :
    1 ≤ objectDepthOfAll nodes := by
  obtain ⟨n, ns, rfl⟩ := List.exists_cons_of_ne_nil h
  have hpos : 1 ≤ n.objectDepth := by
    cases n with
    | inner key children => exact Nat.le_add_left 1 _
    | leaf key value => exact Nat.le_refl 1
  exact Nat.le_trans hpos (Nat.le_max_left _ _)

theorem objectDepthOfAll_eq {nodes : List DataNode}
    (h : ∀ n ∈ nodes, n.objectDepth = n.depth) : objectDepthOfAll nodes = depthOfAll nodes := by
  induction nodes with
  | nil => rfl
  | cons n ns ih =>
      rw [List.forall_mem_cons] at h
      rw [objectDepthOfAll, depthOfAll, h.1, ih h.2]

/-- Where there are no empty objects, JSON counts the nodes. -/
theorem Filled.objectDepth_eq {n : DataNode} (h : n.Filled) : n.objectDepth = n.depth := by
  induction h with
  | leaf key value => rfl
  | @inner key children hne below ih =>
      rw [objectDepth, depth, Nat.max_eq_right (objectDepthOfAll_pos hne), objectDepthOfAll_eq ih]

end Instance.DataNode

namespace Codec

open Schema Instance DataNode

def tooDeep (bound : Nat) : Error := .limitExceeded .dataDepth (bound + 1) bound

/-- What a codec gives that goes down to a level of the data, which it stops
short of: the result, unless this is past the limit. All results on depth are
stated in this form, and composed by the lemmas below. -/
def within {α : Type} (bound stop : Nat) (x : α) : Except Error α :=
  if stop ≤ bound + 1 then .ok x else .error (tooDeep bound)

section Within

variable {α β : Type} {bound stop stop' : Nat} {x : α} {y : β}

theorem within_of_le (h : stop ≤ bound + 1) : within bound stop x = .ok x := if_pos h

theorem within_congr (h : stop ≤ bound + 1 ↔ stop' ≤ bound + 1) :
    within bound stop x = within bound stop' x := by
  simp only [within, h]

/-- Of two steps the one that goes further down decides. The second one is not
taken if the first one is past the limit, where the error is the same. -/
theorem within_bind {f : α → Except Error β}
    (h : stop ≤ bound + 1 → f x = within bound stop' y) :
    (within bound stop x >>= f) = within bound (max stop stop') y := by
  by_cases hstop : stop ≤ bound + 1
  · rw [within_of_le hstop]
    change f x = _
    rw [h hstop]
    exact within_congr (by omega)
  · have hmax : ¬max stop stop' ≤ bound + 1 := by omega
    rw [within, within, if_neg hstop, if_neg hmax]
    rfl

theorem within_bind_ok {f : α → Except Error β} (h : f x = .ok y) :
    (within bound stop x >>= f) = within bound stop y := by
  rw [within, within]
  split
  · exact h
  · rfl

theorem check_dataDepth {limits : Limits} {level : Nat} (h : level ≤ limits.dataDepth + 1) :
    limits.check .dataDepth level = within limits.dataDepth (level + 1) () := by
  by_cases hlevel : level ≤ limits.dataDepth
  · rw [within_of_le (Nat.succ_le_succ hlevel)]
    exact Limits.check_eq_ok_iff.mpr hlevel
  · obtain rfl : level = limits.dataDepth + 1 := by omega
    rw [within, if_neg (by omega)]
    exact Limits.check_eq_error_iff.mpr ⟨Nat.lt_succ_self _, rfl⟩

/-- Steps over a list go as far down as the one that goes furthest. -/
theorem mapM_within {γ : Type} {f g : γ → Except Error α} {stops : α → Nat} {items : List γ}
    {found : List α} (h : ∀ item ∈ items, ∀ x, f item = .ok x → g item = within bound (stops x) x)
    (hstop : stop ≤ bound + 1) (hf : items.mapM f = .ok found) :
    items.mapM g = within bound ((found.map stops).foldr max stop) found := by
  induction items generalizing found with
  | nil =>
      rw [List.mapM_nil] at hf ⊢
      obtain rfl := pure_eq_ok_iff.mp hf
      exact (within_of_le hstop).symm
  | cons item items ih =>
      rw [List.mapM_cons] at hf ⊢
      simp only [bind_eq_ok_iff, pure_eq_ok_iff] at hf
      obtain ⟨x, hx, xs, hxs, rfl⟩ := hf
      rw [List.forall_mem_cons] at h
      rw [h.1 x hx, ih h.2 hxs]
      exact within_bind fun _ => within_bind_ok rfl

end Within

namespace Context

def withDepth (c : Context) (bound : Nat) : Context :=
  { c with limits := c.limits.withBound bound .dataDepth }

variable (c : Context) (bound : Nat)

@[simp] theorem tree_withDepth : (c.withDepth bound).tree = c.tree := rfl

@[simp] theorem moduleByNamespace?_withDepth :
    (c.withDepth bound).moduleByNamespace? = c.moduleByNamespace? := rfl

@[simp] theorem dataDepth_withDepth : (c.withDepth bound).limits.dataDepth = bound := rfl

/-- Only the codecs themselves look at the limit. -/
@[simp] theorem valueNode_withDepth : (c.withDepth bound).valueNode = c.valueNode := by
  funext i raw
  have hread : (c.withDepth bound).leafValue i raw = c.leafValue i raw := by
    have hcheck : (c.withDepth bound).limits.check .derivationDepth =
        c.limits.check .derivationDepth := rfl
    have htype : (c.withDepth bound).type? i = c.type? i := rfl
    rw [leafValue, leafValue, htype]
    cases c.type? i with
    | none => rfl
    | some type => exact TypeSpec.readAt_congr hcheck raw 0 type
  rw [valueNode, valueNode, hread]
  rfl

theorem withDepth_enter (module : NodeId) :
    (c.withDepth bound).enter module = (c.enter module).withDepth bound := by
  have hnews : (c.withDepth bound).isNews module = c.isNews module := rfl
  rw [enter, enter, hnews]
  split <;> rfl

theorem withDepth_foldl_enter (modules : List NodeId) :
    modules.foldl enter (c.withDepth bound) = (modules.foldl enter c).withDepth bound := by
  induction modules generalizing c with
  | nil => rfl
  | cons module modules ih => rw [List.foldl_cons, List.foldl_cons, withDepth_enter, ih]

/-- The tables of modules are the same for all limits. -/
theorem withDepth_ofTree (t : Tree) (limits : Limits) :
    (ofTree t limits).withDepth bound = ofTree t (limits.withBound bound .dataDepth) :=
  (withDepth_foldl_enter _ bound t.modules).symm

/-- Limits are their own limits with another depth of data and then their own
again. -/
theorem ofTree_eq_withDepth (t : Tree) (limits : Limits) (loose : Nat) :
    ofTree t limits =
      (ofTree t (limits.withBound loose .dataDepth)).withDepth limits.dataDepth := by
  rw [withDepth_ofTree]
  rfl

@[simp] theorem innerNode_withDepth : (c.withDepth bound).innerNode = c.innerNode := rfl

variable {c}

theorem exists_leaf_of_valueNode {i : NodeId} {raw : String} {n : DataNode}
    (h : c.valueNode i raw = .ok n) : ∃ key value, n = .leaf key value := by
  obtain ⟨value, -, h⟩ := bind_eq_ok_iff.mp h
  split at h
  · exact ⟨_, value, (pure_eq_ok_iff.mp h).symm⟩
  · exact ⟨_, value, (pure_eq_ok_iff.mp h).symm⟩

theorem exists_inner_of_innerNode {i : NodeId} {children : List DataNode} {n : DataNode}
    (h : c.innerNode i children = .ok n) : ∃ key, n = .inner key children := by
  rw [innerNode] at h
  split at h
  · obtain ⟨key, -, h⟩ := bind_eq_ok_iff.mp h
    exact ⟨key, (pure_eq_ok_iff.mp h).symm⟩
  · exact ⟨_, (pure_eq_ok_iff.mp h).symm⟩

end Context

end Codec

end Yang
