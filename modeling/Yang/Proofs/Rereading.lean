import Yang.Proofs.Branches
import Yang.Proofs.Literal.ReadBack

/-!
# Values that are read again

A type reads the canonical literal of each of its values. Without unions it gives the value
again. In a union the order of the members decides and not where a value came from: a branch
that rejected the literal may accept the canonical one, and if it comes before the branch that
gave the value, its value is the one that is read. So `up up` sets a bit and is no identity,
whereas `up`, which the bit is written as, can name one.

A type may be nested deeper than reading follows it, provided that a branch accepts the
literal which comes before the ones that are nested too deep. Then the branches up to the
accepting one decide about every literal that one of them accepts (`ReadBy`).
-/

namespace Yang

theorem Literal.eq_of_boolean {raw : String} {b : Bool} (h : boolean raw = .ok b) :
    (if b then "true" else "false") = raw := by
  rw [boolean] at h
  split at h
  · rename_i htrue
    obtain rfl := Except.ok.inj h
    exact htrue.symm
  · split at h
    · rename_i hfalse
      obtain rfl := Except.ok.inj h
      exact hfalse.symm
    · cases h

namespace Value

/-- A type has no literal for such a value but the canonical one. Signs, zeros,
blanks and repeated bits make the others. -/
def isVerbatim : Value → Bool
  | .integer _ _ _ | .decimal _ | .binary _ | .bits _ => false
  | _ => true

theorem literal_of_isVerbatim {raw : String} {t : Builtin} {v : Value} (h : parse raw t = .ok v)
    (verbatim : v.isVerbatim = true) : v.literal = raw := by
  cases t with
  | integer t =>
      simp only [parse, bind_eq_ok_iff, pure_eq_ok_iff] at h
      obtain ⟨_, -, rfl⟩ := h
      cases verbatim
  | decimal64 | binary | bits =>
      rw [parse, map_eq_ok_iff] at h
      obtain ⟨_, -, rfl⟩ := h
      cases verbatim
  | boolean =>
      rw [parse, map_eq_ok_iff] at h
      obtain ⟨b, hb, rfl⟩ := h
      exact Literal.eq_of_boolean hb
  | string =>
      obtain rfl := Except.ok.inj h
      rfl
  | enumeration | identityref | instanceIdentifier =>
      simp only [parse, bind_eq_ok_iff, exists_unit_iff, pure_eq_ok_iff] at h
      obtain ⟨-, rfl⟩ := h
      rfl
  | empty =>
      rw [parse] at h
      split at h
      · rename_i hempty
        obtain rfl := Except.ok.inj h
        exact hempty.symm
      · split at h
        · rename_i b hb
          obtain rfl := Except.ok.inj h
          exact Literal.eq_of_boolean hb
        · cases h
  | _ => cases h

end Value

namespace TypeSpec

/-! ### Reading past the bound -/

theorem Plain.readAt_of_deep {t : TypeSpec} (h : t.Plain) {limits : Limits} {depth : Nat}
    (deep : limits.derivationDepth < depth + t.nesting) (raw : String) :
    ∃ n, readAt limits raw depth t =
      .error (.limitExceeded .derivationDepth n limits.derivationDepth) := by
  induction h generalizing depth with
  | builtin type range => exact ⟨depth, readAt_of_over deep raw _⟩
  | @derived base name own location use _ ih =>
      rcases Nat.lt_or_ge limits.derivationDepth depth with hover | hwithin
      · exact ⟨depth, readAt_of_over hover raw _⟩
      · rw [nesting] at deep
        obtain ⟨n, hn⟩ := @ih (depth + 1) (by omega)
        exact ⟨n, by rw [readAt, bind_of_ok (checkDepth_of_le hwithin), hn]; rfl⟩
  | @leafref target path _ ih =>
      rcases Nat.lt_or_ge limits.derivationDepth depth with hover | hwithin
      · exact ⟨depth, readAt_of_over hover raw _⟩
      · rw [nesting] at deep
        obtain ⟨n, hn⟩ := @ih (depth + 1) (by omega)
        exact ⟨n, by rw [readAt, bind_of_ok (checkDepth_of_le hwithin), hn]⟩

/-- The literal is rejected, and not because of a limit. Only then does the
search in a union go on to the next member. -/
def Rejects (x : Except Error Value) : Prop := ∃ e, x = .error e ∧ e.kind ≠ .limitExceeded

theorem exists_of_kind {e : Error} (h : e.kind = .limitExceeded) :
    ∃ quantity n bound, e = .limitExceeded quantity n bound := by
  cases e with
  | limitExceeded quantity n bound => exact ⟨quantity, n, bound, rfl⟩
  | _ => cases h

/-- The search for an accepting member either ends without one, as all members
reject the literal, or it stops at a member after such members. -/
theorem readFirst_cases (limits : Limits) (raw : String) (depth : Nat)
    (members : List TypeSpec) :
    ((∀ m ∈ members, Rejects (readAt limits raw depth m)) ∧
        readFirst limits raw depth members = .ok none) ∨
      ∃ before member after, members = before ++ member :: after ∧
        (∀ m ∈ before, Rejects (readAt limits raw depth m)) ∧
        ((∃ v, readAt limits raw depth member = .ok v ∧
            readFirst limits raw depth members = .ok (some v)) ∨
          ∃ e, e.kind = .limitExceeded ∧ readFirst limits raw depth members = .error e) := by
  induction members with
  | nil => exact .inl ⟨List.forall_mem_nil _, rfl⟩
  | cons member rest ih =>
      rw [readFirst]
      split
      · rename_i v hv
        exact .inr ⟨[], member, rest, rfl, List.forall_mem_nil _, .inl ⟨v, hv, rfl⟩⟩
      · exact .inr ⟨[], member, rest, rfl, List.forall_mem_nil _, .inr ⟨_, rfl, rfl⟩⟩
      · rename_i e hlimit herror
        have hmember : Rejects (readAt limits raw depth member) := by
          refine ⟨e, herror, fun hkind => ?_⟩
          obtain ⟨quantity, n, bound, rfl⟩ := exists_of_kind hkind
          exact hlimit quantity n bound rfl
        obtain ⟨rejected, hnone⟩ | ⟨before, next, after, rfl, rejected, hnext⟩ := ih
        · exact .inl ⟨List.forall_mem_cons.mpr ⟨hmember, rejected⟩, hnone⟩
        · exact .inr ⟨member :: before, next, after, rfl,
            List.forall_mem_cons.mpr ⟨hmember, rejected⟩, hnext⟩

theorem nesting_union_le {members : List TypeSpec} {n : Nat}
    (h : ∀ m ∈ members, m.nesting + 1 ≤ n) : (union members).nesting ≤ n := by
  rw [nesting]
  induction members with
  | nil => exact Nat.zero_le n
  | cons member rest ih =>
      obtain ⟨hmember, hrest⟩ := List.forall_mem_cons.mp h
      exact Nat.max_le.mpr ⟨hmember, ih hrest⟩

theorem le_of_rejects {limits : Limits} {raw : String} {depth : Nat} {t : TypeSpec}
    (h : Rejects (readAt limits raw depth t)) : depth ≤ limits.derivationDepth := by
  by_contra hover
  obtain ⟨e, herror, hkind⟩ := h
  rw [readAt_of_over (Nat.lt_of_not_le hover) raw t] at herror
  obtain rfl := Except.error.inj herror
  exact hkind rfl

theorem le_of_readAt {limits : Limits} {raw : String} {depth : Nat} {t : TypeSpec} {v : Value}
    (h : readAt limits raw depth t = .ok v) : depth ≤ limits.derivationDepth := by
  by_contra hover
  rw [readAt_of_over (Nat.lt_of_not_le hover) raw t] at h
  cases h

/-- A type that rejects a literal has been tried down to its deepest built-in
type. A bound that was in the way would have been reported. -/
theorem Regular.fits_of_rejects {t : TypeSpec} (h : t.Regular) {limits : Limits} {raw : String}
    {depth : Nat} (rejects : Rejects (readAt limits raw depth t)) :
    depth + t.nesting ≤ limits.derivationDepth := by
  have hdepth := le_of_rejects rejects
  induction h generalizing depth with
  | @plain t plain =>
      by_contra hdeep
      obtain ⟨e, herror, hkind⟩ := rejects
      obtain ⟨n, hn⟩ := plain.readAt_of_deep (Nat.lt_of_not_le hdeep) raw
      rw [hn] at herror
      obtain rfl := Except.error.inj herror
      exact hkind rfl
  | @derived base name location regular ih =>
      rw [readAt_derived hdepth] at rejects
      have hnesting := ih rejects (le_of_rejects rejects)
      rw [nesting]
      omega
  | @leafref target path regular ih =>
      rw [readAt_leafref hdepth] at rejects
      have hnesting := ih rejects (le_of_rejects rejects)
      rw [nesting]
      omega
  | @union members regular ih =>
      have hmembers : ∀ m ∈ members, Rejects (readAt limits raw (depth + 1) m) := by
        obtain ⟨e, herror, hkind⟩ := rejects
        rw [readAt, bind_of_ok (checkDepth_of_le hdepth)] at herror
        obtain ⟨rejected, -⟩ | ⟨before, member, after, -, -, ⟨v, -, hsome⟩ | ⟨e', hlimit, hlast⟩⟩ :=
          readFirst_cases limits raw (depth + 1) members
        · exact rejected
        · rw [hsome] at herror
          cases herror
        · rw [hlast] at herror
          obtain rfl := Except.error.inj herror
          exact absurd hlimit hkind
      have hnesting : (TypeSpec.union members).nesting ≤ limits.derivationDepth - depth := by
        refine nesting_union_le fun m hm => ?_
        have := ih m hm (hmembers m hm) (le_of_rejects (hmembers m hm))
        omega
      omega

/-- A literal is read by way of a branch: all branches before it reject the
literal, and it gives the value. Neither it nor they are nested too deep, so any
literal that one of them accepts is read as the value that the first such branch
gives. -/
def ReadBy (limits : Limits) (raw : String) (depth : Nat) (t : TypeSpec) (v : Value) : Prop :=
  ∃ before branch after, t.branches = before ++ branch :: after ∧
    before.findSome? (·.value? raw) = none ∧ branch.value? raw = some v ∧
    ∀ raw' w, (before ++ [branch]).findSome? (·.value? raw') = some w →
      readAt limits raw' depth t = .ok w

theorem ReadBy.map {limits : Limits} {raw : String} {depth : Nat} {t : TypeSpec} {v : Value}
    (h : ReadBy limits raw (depth + 1) t v) (wrap : TypeSpec → TypeSpec)
    (branches : (wrap t).branches = t.branches.map wrap)
    (values : ∀ raw', (·.value? raw') ∘ wrap = (·.value? raw'))
    (reading : ∀ raw', readAt limits raw' depth (wrap t) = readAt limits raw' (depth + 1) t) :
    ReadBy limits raw depth (wrap t) v := by
  obtain ⟨before, branch, after, hbranches, rejected, accepts, again⟩ := h
  refine ⟨before.map wrap, wrap branch, after.map wrap, ?_, ?_, ?_, ?_⟩
  · rw [branches, hbranches, List.map_append, List.map_cons]
  · rwa [List.findSome?_map, values]
  · exact (congrFun (values raw) branch).trans accepts
  · intro raw' w hw
    rw [← List.map_singleton, ← List.map_append, List.findSome?_map, values] at hw
    rw [reading]
    exact again raw' w hw

/-- A union reads a literal by way of the branches of its first accepting
member, after those of the members before it. -/
theorem ReadBy.union {limits : Limits} {raw : String} {depth : Nat} {member : TypeSpec}
    {v : Value} (h : ReadBy limits raw (depth + 1) member v)
    (hdepth : depth ≤ limits.derivationDepth) {before : List TypeSpec} (after : List TypeSpec)
    (regular : ∀ m ∈ before, m.Regular)
    (rejected : ∀ m ∈ before, Rejects (readAt limits raw (depth + 1) m)) :
    ReadBy limits raw depth (.union (before ++ member :: after)) v := by
  have hfits : ∀ m ∈ before, depth + 1 + m.nesting ≤ limits.derivationDepth :=
    fun m hm => (regular m hm).fits_of_rejects (rejected m hm)
  have hbefore : ∀ raw', (before.flatMap branches).findSome? (·.value? raw') =
      before.findSome? (·.value? raw') := by
    intro raw'
    rw [← branchesOfMembers_eq_flatMap, ← branches, ← (Regular.union regular).value?_eq,
      value?_union]
  have hnone : before.findSome? (·.value? raw) = none := by
    rw [List.findSome?_eq_none_iff]
    intro m hm
    obtain ⟨e, herror, -⟩ := rejected m hm
    rw [← toOption_readAt raw (hfits m hm), herror]
    rfl
  obtain ⟨left, branch, right, hbranches, hleft, accepts, again⟩ := h
  refine ⟨before.flatMap branches ++ left, branch, right ++ after.flatMap branches, ?_, ?_,
    accepts, ?_⟩
  · rw [branches, branchesOfMembers_eq_flatMap, List.flatMap_append, List.flatMap_cons, hbranches]
    simp only [List.append_assoc, List.cons_append]
  · rw [List.findSome?_append, hbefore, hnone, hleft]
    rfl
  · intro raw' w hw
    rw [List.append_assoc, List.findSome?_append, hbefore] at hw
    have hfirst : readFirst limits raw' (depth + 1) (before ++ member :: after) =
        .ok (some w) := by
      rw [readFirst_append (member :: after) (fun m hm => decides_of_fits raw' (hfits m hm))
        fun m hm => toOption_readAt raw' (hfits m hm)]
      cases hfound : before.findSome? (·.value? raw') with
      | some w' =>
          rw [hfound] at hw
          obtain rfl := Option.some.inj hw
          rfl
      | none =>
          rw [hfound] at hw
          rw [Option.elim_none, readFirst, again raw' w hw]
    rw [readAt, bind_of_ok (checkDepth_of_le hdepth), bind_of_ok hfirst]
    rfl

/-- A literal that is read is read by way of a branch. -/
theorem Regular.readBy {t : TypeSpec} (h : t.Regular) {limits : Limits} {raw : String}
    {depth : Nat} {v : Value} (hread : readAt limits raw depth t = .ok v) :
    ReadBy limits raw depth t v := by
  induction h generalizing depth with
  | @plain t plain =>
      have fits : depth + t.nesting ≤ limits.derivationDepth := by
        by_contra hdeep
        obtain ⟨n, hn⟩ := plain.readAt_of_deep (Nat.lt_of_not_le hdeep) raw
        rw [hn] at hread
        cases hread
      refine ⟨[], t, [], plain.branches_eq, rfl, (readAt_of_fits fits).mp hread, ?_⟩
      intro raw' w hw
      rw [List.nil_append, List.findSome?_singleton] at hw
      exact (readAt_of_fits fits).mpr hw
  | @derived base name location regular ih =>
      have hdepth := le_of_readAt hread
      rw [readAt_derived hdepth] at hread
      refine (ih hread).map (.derived name · none location none) (by rw [branches]) ?_ ?_
      · exact fun raw' => funext fun branch => value?_derived name branch location raw'
      · exact fun raw' => readAt_derived hdepth raw' name base location
  | @leafref target path regular ih =>
      have hdepth := le_of_readAt hread
      rw [readAt_leafref hdepth] at hread
      refine (ih hread).map (.leafref path) (by rw [branches]) ?_ ?_
      · exact fun raw' => funext fun branch => value?_leafref path branch raw'
      · exact fun raw' => readAt_leafref hdepth raw' path target
  | @union members regular ih =>
      have hdepth := le_of_readAt hread
      rw [readAt, bind_of_ok (checkDepth_of_le hdepth)] at hread
      obtain ⟨-, hnone⟩ | ⟨before, member, after, rfl, rejected,
          ⟨w, hmember, hsome⟩ | ⟨e, -, herror⟩⟩ := readFirst_cases limits raw (depth + 1) members
      · rw [bind_of_ok hnone] at hread
        cases hread
      · rw [bind_of_ok hsome] at hread
        obtain rfl := Except.ok.inj hread
        have hmem : member ∈ before ++ member :: after := List.mem_append_cons_self
        refine (ih member hmem hmember).union hdepth after ?_ rejected
        exact fun m hm => regular m (List.mem_append_left _ hm)
      · rw [herror] at hread
        cases hread

/-! ### Canonical literals -/

theorem Plain.readAt_literal {t : TypeSpec} (h : t.Plain) {limits : Limits} {raw : String}
    {depth : Nat} {v : Value} (hread : readAt limits raw depth t = .ok v) :
    readAt limits v.literal depth t = .ok v ∧ (v.isVerbatim = true → v.literal = raw) := by
  induction h generalizing depth v with
  | builtin type range =>
      simp only [readAt, bind_eq_ok_iff, exists_unit_iff, pure_eq_ok_iff] at hread ⊢
      obtain ⟨hcheck, v, hv, hrange, rfl⟩ := hread
      exact ⟨⟨hcheck, v, Value.parse_literal hv, hrange, rfl⟩, Value.literal_of_isVerbatim hv⟩
  | derived name own location use _ ih =>
      simp only [readAt, bind_eq_ok_iff, exists_unit_iff, pure_eq_ok_iff] at hread ⊢
      obtain ⟨hcheck, v, hbase, hown, huse, rfl⟩ := hread
      obtain ⟨hagain, verbatim⟩ := ih hbase
      exact ⟨⟨hcheck, v, hagain, hown, huse, rfl⟩, verbatim⟩
  | leafref path _ ih =>
      simp only [readAt, bind_eq_ok_iff, exists_unit_iff] at hread ⊢
      obtain ⟨hcheck, htarget⟩ := hread
      obtain ⟨hagain, verbatim⟩ := ih htarget
      exact ⟨⟨hcheck, hagain⟩, verbatim⟩

theorem Plain.value?_literal {t : TypeSpec} (h : t.Plain) {raw : String} {v : Value}
    (hv : t.value? raw = some v) :
    t.value? v.literal = some v ∧ (v.isVerbatim = true → v.literal = raw) := by
  have fits : 0 + t.nesting ≤ ({ derivationDepth := t.nesting } : Limits).derivationDepth :=
    Nat.le_of_eq (Nat.zero_add _)
  rw [← readAt_of_fits fits] at hv ⊢
  exact h.readAt_literal hv

/-- The canonical literal of a value that was read is always read. Its value is
the one of the first branch that accepts it, and this branch stands at or before
the one that gave the value: so it is the value itself unless a branch accepts
it that comes earlier and rejected the literal. Types without unions have no
such branch, and values with one literal leave no choice. -/
theorem reads_canonical_literal {t : TypeSpec} (built : t.Built) {limits : Limits} {raw : String}
    {v : Value} (h : t.read raw limits = .ok v) :
    (∃ before branch after, t.branches = before ++ branch :: after ∧
      (∀ other ∈ before, other.value? raw = none) ∧ branch.value? raw = some v ∧
      branch.value? v.literal = some v ∧
      t.read v.literal limits = .ok ((before.findSome? (·.value? v.literal)).getD v)) ∧
    (t.Plain → t.read v.literal limits = .ok v) ∧
    (v.isVerbatim = true → t.read v.literal limits = .ok v) := by
  obtain ⟨before, branch, after, hbranches, rejected, accepts, again⟩ := built.regular.readBy h
  have plain : branch.Plain :=
    plain_of_mem_branches branch (hbranches ▸ List.mem_append_cons_self)
  obtain ⟨hliteral, verbatim⟩ := plain.value?_literal accepts
  refine ⟨⟨before, branch, after, hbranches, List.findSome?_eq_none_iff.mp rejected, accepts,
    hliteral, ?_⟩, fun plain => (plain.readAt_literal h).1, ?_⟩
  · refine again v.literal _ ?_
    rw [List.findSome?_append, List.findSome?_singleton, hliteral]
    cases before.findSome? (·.value? v.literal) <;> rfl
  · intro hv
    rwa [verbatim hv]

def identityOrBits : TypeSpec := .union [.builtin .identityref none, .builtin .bits none]

theorem identityOrBits_built : identityOrBits.Built := by
  have hbits : ∀ m ∈ [builtin .bits none], m.Built :=
    List.forall_mem_singleton.mpr (.builtin .bits)
  exact .union (List.forall_mem_cons.mpr ⟨.builtin .identityref, hbits⟩)

/-- Two names are no identity, but the bit that they set is written as one. -/
theorem reads_canonical_literal_identity :
    identityOrBits.Built ∧ identityOrBits.read "up up" {} = .ok (.bits ["up"]) ∧
      ∃ before branch after, identityOrBits.branches = before ++ branch :: after ∧
        (∀ other ∈ before, other.value? "up up" = none) ∧
        branch.value? "up up" = some (.bits ["up"]) ∧
        branch.value? "up" = some (.bits ["up"]) ∧
        identityOrBits.read "up" {} =
          .ok ((before.findSome? (·.value? "up")).getD (.bits ["up"])) := by
  have h : identityOrBits.read "up up" {} = .ok (.bits ["up"]) := by decide
  exact ⟨identityOrBits_built, h, (reads_canonical_literal identityOrBits_built h).1⟩

/-- So values are not always read back as themselves. -/
theorem canonical_literal_not_stable :
    ¬ ∀ (t : TypeSpec) (raw : String) (v : Value), t.Built → t.read raw {} = .ok v →
      ∃ w, t.read v.literal {} = .ok w ∧ v.same w = true := by
  intro stable
  have hbits : identityOrBits.read "up up" {} = .ok (.bits ["up"]) := by decide
  have hidentity : identityOrBits.read "up" {} = .ok (.identity "up") := by decide
  obtain ⟨w, hw, hsame⟩ :=
    stable identityOrBits "up up" (.bits ["up"]) identityOrBits_built hbits
  have hagain : identityOrBits.read "up" {} = .ok w := hw
  rw [hidentity] at hagain
  obtain rfl := Except.ok.inj hagain
  cases hsame

end TypeSpec

end Yang
