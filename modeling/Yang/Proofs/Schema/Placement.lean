import Yang.Proofs.Schema.Forest

/-!
# Where data nodes appear

A statement is checked against the node in which it stands, but a data node in a case or an
augment appears in the context of another node. Behind a choice the two checks agree, because
a choice stands only where such data nodes may stand too. The target of an augment is not
compared with what stands in the augment. So an anydata node gets entries, which are marked,
and an rpc gets others than its input and output.
-/

namespace Yang

namespace NodeKind

variable {above k : NodeKind}

theorem mayHold_rpc_iff : NodeKind.rpc.mayHold k = true ↔ k = .input ∨ k = .output := by
  cases k <;> decide

theorem eq_rpc_of_mayHold (h : above.mayHold k = true) (hk : k = .input ∨ k = .output) :
    above = .rpc := by
  rcases hk with rfl | rfl <;> cases above <;> first | rfl | cases h

theorem eq_module_of_mayHold_rpc (h : above.mayHold .rpc = true) : above = .module := by
  cases above <;> first | rfl | cases h

theorem eq_choice_of_mayHold_case (h : above.mayHold .case = true) : above = .choice := by
  cases above <;> first | rfl | cases h

/-- A data node does not stand in a choice itself, and in an augment as in a
case. -/
theorem mayHold_case_of_skipped (hdata : k.isData = true)
    (hskipped : above = .choice ∨ above = .case ∨ above = .augment)
    (placed : above.mayHold k = true) : NodeKind.case.mayHold k = true := by
  rcases hskipped with rfl | rfl | rfl
  · obtain rfl : k = .case := by simpa [mayHold, isTerminal] using placed
    cases hdata
  · exact placed
  · revert placed
    cases k <;> decide

/-- What may stand in a case may stand where a choice does. So choices and cases
can be skipped without breaking the rules. -/
theorem mayHold_of_choice (hdata : k.isData = true) (hcase : NodeKind.case.mayHold k = true)
    (hstops : above ≠ .choice ∧ above ≠ .case ∧ above ≠ .augment)
    (placed : above.mayHold .choice = true) : above.mayHold k = true := by
  revert hdata hcase hstops placed
  cases above <;> cases k <;> decide

/-- What may stand in a case may stand in every node that an augment adds to,
but for two. -/
theorem mayHold_of_isAugmentable (hdata : k.isData = true)
    (hcase : NodeKind.case.mayHold k = true) (haugmentable : above.isAugmentable = true)
    (hanydata : above ≠ .anydata) (hrpc : above ≠ .rpc) : above.mayHold k = true := by
  revert hdata hcase haugmentable hanydata hrpc
  cases above <;> cases k <;> decide

end NodeKind

namespace Schema.Tree

/-- The node is written in an augment of the holder, at any depth. It is the one
way around the rules for placing a statement. -/
def BroughtIn (t : Tree) (holder i : NodeId) : Prop :=
  ∃ a ∈ t.lineage i, ∃ n, t.node? a = some n ∧ n.target? = some holder

/-- How the kind of an entry relates to the kind of the node in whose context it
stands. The rules were made for parents, and are compared here with holders. -/
structure Admits (t : Tree) (holder : NodeId) (e : ContextEntry) (above kind : NodeKind) :
    Prop where
  kind_holder : t.kind? holder = some above
  kind_entry : t.kind? e.node = some kind
  /-- The rules for placing a statement hold here too, but for entries of an anydata node
  and what an augment adds to an rpc. -/
  mayHold_iff : above.mayHold kind = true ↔
    above ≠ .anydata ∧ ¬(above = .rpc ∧ t.BroughtIn holder e.node)
  /-- Augments alone give entries to an anydata node, -/
  anydata : above = .anydata → t.BroughtIn holder e.node
  /-- and these entries are marked. -/
  marked : e.underAnydata = true ↔ above = .anydata
  /-- An rpc has its input and output, and no other entries but those of its augments. -/
  rpc : above = .rpc → ((kind = .input ∨ kind = .output) ↔ ¬t.BroughtIn holder e.node)

section Rooted

variable {t : Tree} {i : NodeId} {o : Outline}

theorem BroughtIn.of_parent (h : t.Rooted) {holder parent : NodeId}
    (hparent : t.parent? i = some parent) (hin : t.BroughtIn holder parent) :
    t.BroughtIn holder i := by
  obtain ⟨a, ha, hn⟩ := hin
  refine ⟨a, ?_, hn⟩
  rw [h.lineage_eq, hparent]
  exact List.mem_cons_of_mem _ ha

/-- An augment is among the nodes that lead to a node if something is brought in
with it. Only augments have targets. -/
theorem BroughtIn.exists_augment {holder : NodeId} (hin : t.BroughtIn holder i) :
    ∃ a ∈ t.lineage i, t.kind? a = some .augment := by
  obtain ⟨a, ha, n, hn, htarget⟩ := hin
  refine ⟨a, ha, ?_⟩
  rw [kind?_of_node? hn]
  exact congrArg some (n.target_outline.mpr ⟨holder, htarget⟩)

/-- The input and the output of an rpc are not written in an augment. -/
theorem Rooted.not_broughtIn (h : t.Rooted) (ho : t.outline? i = some o)
    (hk : o.kind = .input ∨ o.kind = .output) (holder : NodeId) : ¬t.BroughtIn holder i := by
  intro hin
  have hi : o.kind ≠ .module ∧ o.kind ≠ .augment := by
    rcases hk with hk | hk <;> simp [hk]
  -- The way up leads to the rpc and on to its module.
  obtain ⟨rpc, p, hrpc, hp, placed⟩ := h.exists_above ho hi.1
  have hpkind := NodeKind.eq_rpc_of_mayHold placed hk
  obtain ⟨m, q, hm, hq, placed'⟩ := h.exists_above hp (by simp [hpkind])
  have hqkind := NodeKind.eq_module_of_mayHold_rpc (hpkind ▸ placed')
  have hroot : q.parent = none := by
    cases h m q hq with
    | module _ => rfl
    | node _ notModule => exact absurd hqkind notModule
  obtain ⟨a, ha, hkind⟩ := hin.exists_augment
  rw [h.lineage_eq i, parent?_eq, ho, Option.bind_some, hrpc, Option.elim_some, h.lineage_eq rpc,
    parent?_eq, hp, Option.bind_some, hm, Option.elim_some, h.lineage_eq m, parent?_eq, hq,
    Option.bind_some, hroot, Option.elim_none] at ha
  simp only [List.mem_cons, List.not_mem_nil, or_false] at ha
  rcases ha with rfl | rfl | rfl
  · rw [kind?_eq, ho] at hkind
    exact hi.2 (Option.some.inj hkind)
  · rw [kind?_eq, hp, Option.map_some, hpkind] at hkind
    cases hkind
  · rw [kind?_eq, hq, Option.map_some, hqkind] at hkind
    cases hkind

/-- The target of an augment takes its entries itself. -/
theorem Rooted.holderOf_of_isAugmentable (h : t.Rooted) (ho : t.outline? i = some o)
    (haugmentable : o.kind.isAugmentable = true) : (t.holderOf i).1 = i := by
  have hstops : t.redirect? i = none := by
    rw [redirect?_eq, ho, Option.bind_some, Outline.redirect?]
    cases hk : o.kind <;> simp_all [NodeKind.isAugmentable, NodeKind.isData]
  rw [h.holderOf_of_stop hstops]

/-- Where the search for a holder goes on, it ends at a node in which data nodes
of a kind may stand, or at the target of an augment. -/
theorem Rooted.holderOf_admits (h : t.Rooted) {k : NodeKind} (hdata : k.isData = true)
    (hcase : NodeKind.case.mayHold k = true) {next : NodeId} (hnext : t.redirect? i = some next) :
    ∃ above, t.kind? (t.holderOf i).1 = some above ∧
      (above.mayHold k = true ∨
        above.isAugmentable = true ∧ t.BroughtIn (t.holderOf i).1 i) := by
  induction i using Nat.strongRecOn generalizing next with
  | ind i ih =>
      have hholder : (t.holderOf i).1 = (t.holderOf next).1 := by
        rw [h.holderOf_eq i, hnext, Option.elim_some]
      obtain ⟨o, ho, hredirect⟩ := Option.bind_eq_some_iff.mp ((redirect?_eq t i).symm.trans hnext)
      rw [hholder]
      -- A choice and a case hand on to their parent what holds of it.
      have handOn {next' : NodeId} (hparent : o.parent = some next)
          (hnext' : t.redirect? next = some next') :
          ∃ above, t.kind? (t.holderOf next).1 = some above ∧
            (above.mayHold k = true ∨
              above.isAugmentable = true ∧ t.BroughtIn (t.holderOf next).1 i) := by
        have hparent? : t.parent? i = some next := by rw [parent?_eq, ho, Option.bind_some, hparent]
        obtain ⟨above, habove, hk⟩ := ih next (h.redirect?_lt hnext) hnext'
        exact ⟨above, habove, hk.imp_right (And.imp_right (BroughtIn.of_parent h hparent?))⟩
      rcases Outline.redirect?_eq_some_iff.mp hredirect with
        ⟨hk, hparent⟩ | ⟨hk, hparent⟩ | ⟨hk, htarget⟩
      · obtain ⟨_, above, hparent', habove, placed⟩ := h.exists_above ho (by simp [hk])
        obtain rfl := Option.some.inj (hparent.symm.trans hparent')
        cases hnext' : t.redirect? next with
        | some next' => exact handOn hparent hnext'
        | none =>
            rw [hk] at placed
            refine ⟨above.kind, by rw [h.holderOf_of_stop hnext', kind?_eq, habove]; rfl, .inl ?_⟩
            exact NodeKind.mayHold_of_choice hdata hcase (h.stops habove hnext') placed
      · obtain ⟨_, above, hparent', habove, placed⟩ := h.exists_above ho (by simp [hk])
        obtain rfl := Option.some.inj (hparent.symm.trans hparent')
        have hchoice := NodeKind.eq_choice_of_mayHold_case (hk ▸ placed)
        cases hnext' : t.redirect? next with
        | some next' => exact handOn hparent hnext'
        | none => exact absurd hchoice (h.stops habove hnext').1
      · obtain ⟨n, hn, rfl⟩ := Option.map_eq_some_iff.mp ho
        obtain ⟨-, target, htarget', haugmentable⟩ := h.exists_target ho htarget
        have hself := h.holderOf_of_isAugmentable htarget' haugmentable
        have hin : t.BroughtIn next i := by
          refine ⟨i, ?_, n, hn, htarget⟩
          rw [h.lineage_eq]
          exact List.mem_cons_self ..
        rw [hself]
        exact ⟨target.kind, by rw [kind?_eq, htarget']; rfl, .inr ⟨haugmentable, hin⟩⟩

/-- The node in whose context a data node is entered may hold it, or it is the
target of the augment in which the data node is written, which then may stand in
a case. The search for the holder decides which. -/
theorem Rooted.holderOf_parent_admits (h : t.Rooted) (ho : t.outline? i = some o)
    (hdata : o.kind.isData = true) {parent : NodeId} {p : Outline}
    (hparent : o.parent = some parent) (hp : t.outline? parent = some p)
    (placed : p.kind.mayHold o.kind = true) :
    ∃ above, t.kind? (t.holderOf parent).1 = some above ∧
      (above.mayHold o.kind = true ∨ above.isAugmentable = true ∧
        NodeKind.case.mayHold o.kind = true ∧ t.BroughtIn (t.holderOf parent).1 i) := by
  cases hnext : t.redirect? parent with
  | none => exact ⟨p.kind, by rw [h.holderOf_of_stop hnext, kind?_eq, hp]; rfl, .inl placed⟩
  | some next =>
      have hskipped : p.kind = .choice ∨ p.kind = .case ∨ p.kind = .augment := by
        rw [redirect?_eq, hp, Option.bind_some, Outline.redirect?_eq_some_iff] at hnext
        exact hnext.imp And.left (Or.imp And.left And.left)
      have hcase := NodeKind.mayHold_case_of_skipped hdata hskipped placed
      obtain ⟨above, habove, hk⟩ := h.holderOf_admits hdata hcase hnext
      refine ⟨above, habove, hk.imp_right ?_⟩
      rintro ⟨haugmentable, hin⟩
      have hparent? : t.parent? i = some parent := by
        rw [parent?_eq, ho, Option.bind_some, hparent]
      exact ⟨haugmentable, hcase, hin.of_parent h hparent?⟩

/-- An entry stands where the rules for placing a statement let it stand, but
for anydata nodes and what augments add to an rpc. -/
theorem Registered.admits (h : t.Rooted) {holder : NodeId} {id : SchemaId} {e : ContextEntry}
    (he : t.Registered holder id e) : ∃ above k, t.Admits holder e above k := by
  obtain ⟨o, parent, ho, -, hdata, hparent, hplace⟩ := he
  obtain ⟨_, p, hparent', hp, placed⟩ :=
    h.exists_above ho (by intro hk; rw [hk] at hdata; cases hdata)
  obtain rfl := Option.some.inj (hparent.symm.trans hparent')
  have hmarked := h.underAnydata_iff hp placed hdata e.node
  rw [hplace] at hmarked
  obtain ⟨above, habove, hk⟩ := h.holderOf_parent_admits ho hdata hparent hp placed
  obtain rfl : (t.holderOf parent).1 = holder := (Prod.mk.inj hplace).1
  have hanydata : above.mayHold o.kind = true → above ≠ .anydata := by
    rintro hmay rfl
    rw [not_mayHold_anydata] at hmay
    cases hmay
  have hmay : above.mayHold o.kind = true ↔
      above ≠ .anydata ∧ ¬(above = .rpc ∧ t.BroughtIn (t.holderOf parent).1 e.node) := by
    constructor
    · refine fun hmay => ⟨hanydata hmay, ?_⟩
      rintro ⟨rfl, hin⟩
      exact h.not_broughtIn ho (NodeKind.mayHold_rpc_iff.mp hmay) _ hin
    · rintro ⟨hne, hnot⟩
      rcases hk with hk | ⟨haugmentable, hcase, hin⟩
      · exact hk
      · exact NodeKind.mayHold_of_isAugmentable hdata hcase haugmentable hne
          fun hr => hnot ⟨hr, hin⟩
  refine ⟨above, o.kind, habove, by rw [kind?_eq, ho, Option.map_some], hmay, ?_, ?_, ?_⟩
  · intro hk'
    exact (hk.resolve_left fun hm => hanydata hm hk').2.2
  · rw [hmarked, habove, Option.some.injEq]
  · rintro rfl
    rw [← NodeKind.mayHold_rpc_iff, hmay]
    simp

end Rooted

/-- Statements in any order, failing or not, enter a data node where the rules
for placing a statement allow it, or where an augment adds it to an anydata node
or an rpc. The entries of an anydata node are marked, and an rpc has no others
than its input, its output and what augments add to it. -/
theorem entries_admitted (statements : List Statement) {holder : NodeId} {id : SchemaId}
    {e : ContextEntry} (he : (id, e) ∈ (statements.foldl Tree.after {}).context holder) :
    ∃ above k, (statements.foldl Tree.after {}).Admits holder e above k := by
  have sound := (Reachable.empty.foldl_after statements).sound
  exact ((sound.mem_context_iff _ _ _).mp he).admits sound.rooted

/-- One augment adds a choice to an anydata node and another one a container to
an rpc. -/
def extras : List Statement :=
  [.module "store" "urn:store" "s" none, .rpc 0 "order", .anydata 0 "notes",
    .augment 0 "note-extras" 2, .choice 3 "form", .case 4 "short", .container 5 "text",
    .augment 0 "order-extras" 1, .container 7 "comment"]

theorem entries_admitted_extras :
    (⟨"text", "urn:store"⟩, ⟨6, some 5, true⟩) ∈ (extras.foldl Tree.after {}).context 2 ∧
      ∃ above k, (extras.foldl Tree.after {}).Admits 2 ⟨6, some 5, true⟩ above k := by
  have hcontext : (extras.foldl Tree.after {}).context 2 =
      [(⟨"text", "urn:store"⟩, ⟨6, some 5, true⟩)] := by decide +kernel
  have he : (⟨"text", "urn:store"⟩, ⟨6, some 5, true⟩) ∈
      (extras.foldl Tree.after {}).context 2 := by
    rw [hcontext]
    exact List.mem_singleton_self _
  exact ⟨he, entries_admitted extras he⟩

/-- The container is entered in the rpc, in which no container may stand. -/
theorem container_in_rpc :
    (extras.foldl Tree.after {}).context 1 = [(⟨"comment", "urn:store"⟩, ⟨8, some 7, false⟩)] ∧
      (extras.foldl Tree.after {}).kind? 1 = some .rpc ∧
      (extras.foldl Tree.after {}).kind? 8 = some .container ∧
      NodeKind.rpc.mayHold .container = false :=
  ⟨by decide +kernel, by decide +kernel, by decide +kernel, rfl⟩

end Schema.Tree

end Yang
