import Yang.Proofs.Json.Scanning

/-!
# Reading JSON that was written

A value that codecs write is canonical: its numbers are integers of sixty-four bits and
the members of its objects stand in the order of their names. Both of its texts, the
one on one line and the indented one, are cut into its tokens. The tokens are read as
one document, and the document has the value again. What remains is the limit of the
reader: a value that nests deeper is not read at all.
-/

namespace Yang.Json

/-- A value of integers and sorted members. These are the values that data is
written as, and they are read back as they are. -/
inductive Value.Canonical : Value → Prop
  | null : Canonical .null
  | boolean (b : Bool) : Canonical (.boolean b)
  | number {n : Int} (hleast : -0x8000000000000000 ≤ n) (hgreatest : n < 0x10000000000000000) :
      Canonical (.number (.integer n))
  | string (s : String) : Canonical (.string s)
  | array {items : List Value} (hitems : ∀ v ∈ items, Canonical v) : Canonical (.array items)
  | object {members : List (String × Value)} (sorted : (members.map Prod.fst).Pairwise (· < ·))
      (hmembers : ∀ member ∈ members, Canonical member.2) : Canonical (.object members)

mutual

def Value.written : Value → Written
  | .null => .null
  | .boolean b => .boolean b
  | .number n => .number n.numeral
  | .string s => .string (s.toList.map Piece.ofChar)
  | .array items => .array (Value.writtenItems items)
  | .object members => .object (Value.writtenMembers members)

def Value.writtenItems : List Value → List Written
  | [] => []
  | v :: vs => v.written :: Value.writtenItems vs

def Value.writtenMembers : List (String × Value) → List (List Piece × Written)
  | [] => []
  | (name, v) :: vs => (name.toList.map Piece.ofChar, v.written) :: Value.writtenMembers vs

end

/-- How deep the arrays and objects of a value nest. -/
def Value.nesting (v : Value) : Nat := v.written.depth

section Layout

/-- The text is cut into the tokens of a value, and what follows into further
tokens. What follows must not continue a number at the end of the text. -/
def CutsValue (text : List Char) (v : Value) : Prop :=
  ∀ rest ts, EndsNumber rest → Cuts rest ts → Cuts (text ++ rest) (v.tokens ++ ts)

/-- The text, which ends the item before it, is cut into the tokens of further
items and of the end of their array. -/
def CutsItems (text : List Char) (items : List Value) : Prop :=
  ∀ rest ts, Cuts rest ts →
    EndsNumber (text ++ rest) ∧ Cuts (text ++ rest) (Value.tokensOfItems false items ++ ts)

def CutsMembers (text : List Char) (members : List (String × Value)) : Prop :=
  ∀ rest ts, Cuts rest ts →
    EndsNumber (text ++ rest) ∧ Cuts (text ++ rest) (Value.tokensOfMembers false members ++ ts)

def IsGap (cs : List Char) : Prop := ∀ c ∈ cs, isSpace c = true

theorem isGap_newLine (level : Nat) : IsGap (newLine level) := by
  intro c hc
  rcases List.mem_cons.mp hc with rfl | hblank
  · rfl
  · rw [List.eq_of_mem_replicate hblank]
    rfl

theorem IsGap.nil : IsGap [] := nofun

theorem Cuts.mark {t : Token} {c : Char} (htext : t.text = [c]) (ht : t.IsWritten)
    (hnumber : ∀ n, t ≠ .number n) {rest : List Char} {ts : List Token} (h : Cuts rest ts) :
    Cuts (c :: rest) (t :: ts) := by
  have hcuts := h.token ht fun n hn => absurd hn (hnumber n)
  rwa [htext] at hcuts

theorem Cuts.name {rest : List Char} {ts : List Token} (h : Cuts rest ts) (name : String) :
    Cuts ((Token.ofString name).text ++ rest) (.ofString name :: ts) :=
  h.token (.string name) nofun

/-- White space and a closing mark end a number. -/
theorem endsNumber_gap {gap : List Char} (hgap : IsGap gap) {c : Char} (hc : c = ']' ∨ c = '}')
    (rest : List Char) : EndsNumber (gap ++ c :: rest) := by
  cases gap with
  | nil =>
      refine .cons ?_
      rcases hc with rfl | rfl <;> decide
  | cons d ds =>
      have hd := hgap d (List.mem_cons_self ..)
      simp only [isSpace, Bool.or_eq_true, beq_iff_eq] at hd
      refine .cons ?_
      rcases hd with ((rfl | rfl) | rfl) | rfl <;> decide

theorem CutsItems.nil {gap : List Char} (hgap : IsGap gap) : CutsItems (gap ++ [']']) [] := by
  intro rest ts h
  rw [List.append_assoc, List.singleton_append]
  exact ⟨endsNumber_gap hgap (.inl rfl) rest, (h.mark rfl .closeBracket nofun).spaces hgap⟩

theorem CutsMembers.nil {gap : List Char} (hgap : IsGap gap) : CutsMembers (gap ++ ['}']) [] := by
  intro rest ts h
  rw [List.append_assoc, List.singleton_append]
  exact ⟨endsNumber_gap hgap (.inr rfl) rest, (h.mark rfl .closeBrace nofun).spaces hgap⟩

variable {gap space text others : List Char} {v : Value}

theorem CutsItems.cons {items : List Value} (hgap : IsGap gap) (hv : CutsValue text v)
    (hothers : CutsItems others items) :
    CutsItems (',' :: gap ++ text ++ others) (v :: items) := by
  intro rest ts h
  obtain ⟨hends, hcuts⟩ := hothers rest ts h
  refine ⟨.cons (by decide), ?_⟩
  have hitem := ((hv _ _ hends hcuts).spaces hgap).mark (t := .comma) rfl .comma nofun
  simpa [Value.tokensOfItems] using hitem

theorem CutsMembers.cons (name : String) {members : List (String × Value)} (hgap : IsGap gap)
    (hspace : IsGap space) (hv : CutsValue text v) (hothers : CutsMembers others members) :
    CutsMembers (',' :: gap ++ (Token.ofString name).text ++ ':' :: space ++ text ++ others)
      ((name, v) :: members) := by
  intro rest ts h
  obtain ⟨hends, hcuts⟩ := hothers rest ts h
  refine ⟨.cons (by decide), ?_⟩
  have hvalue := ((hv _ _ hends hcuts).spaces hspace).mark (t := .colon) rfl .colon nofun
  have hmember := ((hvalue.name name).spaces hgap).mark (t := .comma) rfl .comma nofun
  simpa [Value.tokensOfMembers] using hmember

theorem CutsItems.array {items : List Value} (hgap : IsGap gap) (hv : CutsValue text v)
    (hothers : CutsItems others items) :
    CutsValue ('[' :: gap ++ text ++ others) (.array (v :: items)) := by
  intro rest ts _ h
  obtain ⟨hends, hcuts⟩ := hothers rest ts h
  have hitem := ((hv _ _ hends hcuts).spaces hgap).mark (t := .openBracket) rfl .openBracket nofun
  simpa [Value.tokens, Value.tokensOfItems] using hitem

theorem CutsMembers.object (name : String) {members : List (String × Value)} (hgap : IsGap gap)
    (hspace : IsGap space) (hv : CutsValue text v) (hothers : CutsMembers others members) :
    CutsValue ('{' :: gap ++ (Token.ofString name).text ++ ':' :: space ++ text ++ others)
      (.object ((name, v) :: members)) := by
  intro rest ts _ h
  obtain ⟨hends, hcuts⟩ := hothers rest ts h
  have hvalue := ((hv _ _ hends hcuts).spaces hspace).mark (t := .colon) rfl .colon nofun
  have hmember := ((hvalue.name name).spaces hgap).mark (t := .openBrace) rfl .openBrace nofun
  simpa [Value.tokens, Value.tokensOfMembers] using hmember

theorem cutsValue_noItems : CutsValue ['[', ']'] (.array []) := by
  intro rest ts _ h
  exact (h.mark (t := .closeBracket) rfl .closeBracket nofun).mark rfl .openBracket nofun

theorem cutsValue_noMembers : CutsValue ['{', '}'] (.object []) := by
  intro rest ts _ h
  exact (h.mark (t := .closeBrace) rfl .closeBrace nofun).mark rfl .openBrace nofun

theorem cutsValue_token {t : Token} (ht : t.IsWritten) (hv : v.tokens = [t]) :
    CutsValue t.text v := by
  intro rest ts hrest h
  rw [hv]
  exact h.token ht fun _ _ => hrest

end Layout

section Compact

private theorem cutsItems_compact {items : List Value}
    (h : ∀ v ∈ items, CutsValue (v.tokens.flatMap Token.text) v) :
    CutsItems ((Value.tokensOfItems false items).flatMap Token.text) items := by
  induction items with
  | nil => exact .nil .nil
  | cons v vs ih =>
      have hothers := ih fun w hw => h w (List.mem_cons_of_mem v hw)
      have hcuts := CutsItems.cons .nil (h v (List.mem_cons_self ..)) hothers
      simpa [Value.tokensOfItems, Token.text] using hcuts

private theorem cutsMembers_compact {members : List (String × Value)}
    (h : ∀ member ∈ members, CutsValue (member.2.tokens.flatMap Token.text) member.2) :
    CutsMembers ((Value.tokensOfMembers false members).flatMap Token.text) members := by
  induction members with
  | nil => exact .nil .nil
  | cons member rest ih =>
      obtain ⟨name, v⟩ := member
      have hothers := ih fun w hw => h w (List.mem_cons_of_mem _ hw)
      have hcuts := CutsMembers.cons name .nil .nil (h _ (List.mem_cons_self ..)) hothers
      simpa [Value.tokensOfMembers, Token.text] using hcuts

/-- The text on one line is cut into the tokens of the value. -/
theorem cutsValue_compact {v : Value} (h : v.Canonical) :
    CutsValue (v.tokens.flatMap Token.text) v := by
  induction h with
  | null => simpa [Value.tokens] using cutsValue_token (v := .null) .null rfl
  | boolean b => simpa [Value.tokens] using cutsValue_token (v := .boolean b) (.boolean b) rfl
  | @number n _ _ =>
      simpa [Value.tokens] using cutsValue_token (v := .number (.integer n)) (.number n) rfl
  | string s => simpa [Value.tokens] using cutsValue_token (v := .string s) (.string s) rfl
  | @array items _ ih =>
      cases items with
      | nil => exact cutsValue_noItems
      | cons v vs =>
          have hothers := cutsItems_compact fun w hw => ih w (List.mem_cons_of_mem v hw)
          have hcuts := CutsItems.array .nil (ih v (List.mem_cons_self ..)) hothers
          simpa [Value.tokens, Value.tokensOfItems, Token.text] using hcuts
  | @object members _ _ ih =>
      cases members with
      | nil => exact cutsValue_noMembers
      | cons member rest =>
          obtain ⟨name, v⟩ := member
          have hothers := cutsMembers_compact fun w hw => ih w (List.mem_cons_of_mem _ hw)
          have hcuts := CutsMembers.object name .nil .nil (ih _ (List.mem_cons_self ..)) hothers
          simpa [Value.tokens, Value.tokensOfMembers, Token.text] using hcuts

end Compact

section Indented

private theorem cutsItems_indented (level : Nat) {items : List Value}
    (h : ∀ v ∈ items, CutsValue (v.indented (level + 1)) v) :
    CutsItems (Value.indentedItems level items ++ newLine level ++ [']']) items := by
  induction items with
  | nil => exact .nil (isGap_newLine level)
  | cons v vs ih =>
      have hothers := ih fun w hw => h w (List.mem_cons_of_mem v hw)
      have hcuts := CutsItems.cons (isGap_newLine (level + 1)) (h v (List.mem_cons_self ..)) hothers
      simpa [Value.indentedItems] using hcuts

private theorem isGap_blank : IsGap [' '] := by
  intro c hc
  rw [List.mem_singleton.mp hc]
  rfl

private theorem cutsMembers_indented (level : Nat) {members : List (String × Value)}
    (h : ∀ member ∈ members, CutsValue (member.2.indented (level + 1)) member.2) :
    CutsMembers (Value.indentedMembers level members ++ newLine level ++ ['}']) members := by
  induction members with
  | nil => exact .nil (isGap_newLine level)
  | cons member rest ih =>
      obtain ⟨name, v⟩ := member
      have hothers := ih fun w hw => h w (List.mem_cons_of_mem _ hw)
      have hcuts := CutsMembers.cons name (isGap_newLine (level + 1)) isGap_blank
        (h _ (List.mem_cons_self ..)) hothers
      simpa [Value.indentedMembers] using hcuts

theorem cutsValue_indented {v : Value} (h : v.Canonical) (level : Nat) :
    CutsValue (v.indented level) v := by
  induction h generalizing level with
  | null => exact cutsValue_token .null rfl
  | boolean b => exact cutsValue_token (.boolean b) rfl
  | @number n _ _ => exact cutsValue_token (.number n) rfl
  | string s => exact cutsValue_token (.string s) rfl
  | @array items _ ih =>
      cases items with
      | nil => exact cutsValue_noItems
      | cons v vs =>
          have hothers := cutsItems_indented level fun w hw =>
            ih w (List.mem_cons_of_mem v hw) (level + 1)
          have hcuts := CutsItems.array (isGap_newLine (level + 1))
            (ih v (List.mem_cons_self ..) (level + 1)) hothers
          simpa [Value.indented] using hcuts
  | @object members _ _ ih =>
      cases members with
      | nil => exact cutsValue_noMembers
      | cons member rest =>
          obtain ⟨name, v⟩ := member
          have hothers := cutsMembers_indented level fun w hw =>
            ih w (List.mem_cons_of_mem _ hw) (level + 1)
          have hcuts := CutsMembers.object name (isGap_newLine (level + 1)) isGap_blank
            (ih _ (List.mem_cons_self ..) (level + 1)) hothers
          simpa [Value.indented] using hcuts

end Indented

section Document

open Written

/-- The tokens of a value move the machine to the complete document of the
value. What the machine has seen before stays below it. -/
def RunsTo (v : Value) : Prop :=
  ∀ stack ts, run (.value stack) (v.tokens ++ ts) = run (.complete v.written stack) ts

private theorem run_items {items : List Value} (h : ∀ v ∈ items, RunsTo v) (w : Written)
    (seen : List Written) (stack : List Frame) (ts : List Token) :
    run (.complete w (.array seen :: stack)) (Value.tokensOfItems false items ++ ts) =
      run (.complete (.array ((w :: seen).reverse ++ Value.writtenItems items)) stack) ts := by
  induction items generalizing w seen with
  | nil => simp [Value.tokensOfItems, Value.writtenItems, run, step, afterValue]
  | cons v vs ih =>
      have hothers := ih (fun x hx => h x (List.mem_cons_of_mem v hx)) v.written (w :: seen)
      have hv := h v (List.mem_cons_self ..) (.array (w :: seen) :: stack)
        (Value.tokensOfItems false vs ++ ts)
      rw [hothers] at hv
      simpa [Value.tokensOfItems, Value.writtenItems, run, step, afterValue] using hv

private theorem run_members {members : List (String × Value)}
    (h : ∀ member ∈ members, RunsTo member.2) (w : Written) (name : List Piece)
    (seen : List (List Piece × Written)) (stack : List Frame) (ts : List Token) :
    run (.complete w (.object seen name :: stack)) (Value.tokensOfMembers false members ++ ts) =
      run (.complete (.object (((name, w) :: seen).reverse ++ Value.writtenMembers members)) stack)
        ts := by
  induction members generalizing w name seen with
  | nil => simp [Value.tokensOfMembers, Value.writtenMembers, run, step, afterValue]
  | cons member rest ih =>
      obtain ⟨other, v⟩ := member
      have hothers := ih (fun x hx => h x (List.mem_cons_of_mem _ hx)) v.written
        (other.toList.map Piece.ofChar) ((name, w) :: seen)
      have hv := h _ (List.mem_cons_self ..)
        (.object ((name, w) :: seen) (other.toList.map Piece.ofChar) :: stack)
        (Value.tokensOfMembers false rest ++ ts)
      rw [hothers] at hv
      simpa [Value.tokensOfMembers, Value.writtenMembers, run, step, afterValue,
        Token.ofString] using hv

/-- No value begins with the end of an array. -/
private theorem run_firstItem (v : Value) (stack : List Frame) (ts : List Token) :
    run (.item stack) (v.tokens ++ ts) = run (.value (.array [] :: stack)) (v.tokens ++ ts) := by
  cases v <;> rfl

/-- The tokens of a value are read as its document. The induction is on the
value, with the items and the members of what it holds. -/
theorem runsTo {v : Value} (h : v.Canonical) : RunsTo v := by
  induction h with
  | null => exact fun _ _ => rfl
  | boolean b => exact fun _ _ => rfl
  | number _ _ => exact fun _ _ => rfl
  | string s => exact fun _ _ => rfl
  | @array items _ ih =>
      intro stack ts
      cases items with
      | nil => rfl
      | cons v vs =>
          have hv := ih v (List.mem_cons_self ..) (.array [] :: stack)
            (Value.tokensOfItems false vs ++ ts)
          rw [← run_firstItem, run_items fun x hx => ih x (List.mem_cons_of_mem v hx)] at hv
          simpa [Value.tokens, Value.tokensOfItems, Value.written, Value.writtenItems, run, step,
            beginValue] using hv
  | @object members _ _ ih =>
      intro stack ts
      cases members with
      | nil => rfl
      | cons member rest =>
          obtain ⟨name, v⟩ := member
          have hv := ih _ (List.mem_cons_self ..)
            (.object [] (name.toList.map Piece.ofChar) :: stack)
            (Value.tokensOfMembers false rest ++ ts)
          rw [run_members fun x hx => ih x (List.mem_cons_of_mem _ hx)] at hv
          simpa [Value.tokens, Value.tokensOfMembers, Value.written, Value.writtenMembers, run,
            step, beginValue, Token.ofString] using hv

end Document

section Content

theorem characters?_ofChar (cs : List Char) : characters? (cs.map Piece.ofChar) = some cs := by
  induction cs with
  | nil => rfl
  | cons c cs ih =>
      rw [List.map_cons, Piece.ofChar]
      split
      · rename_i h
        have hhigh : ¬(0xD800 ≤ c.toNat ∧ c.toNat < 0xDC00) := by omega
        have hlow : ¬(0xDC00 ≤ c.toNat ∧ c.toNat < 0xE000) := by omega
        rw [characters?.eq_def]
        simp only [if_neg hhigh, if_neg hlow, ih, Option.map_some, Char.ofNat_toNat]
      · rw [characters?, ih, Option.map_some]

theorem text?_ofChar (s : String) : text? (s.toList.map Piece.ofChar) = some s := by
  rw [text?, characters?_ofChar, Option.map_some, String.ofList_toList]

/-- An integer of sixty-four bits has the value of its digits. -/
theorem ofNumeral?_integer {n : Int} (hleast : -0x8000000000000000 ≤ n)
    (hgreatest : n < 0x10000000000000000) :
    Number.ofNumeral? (Number.integer n).numeral = some (.integer n) := by
  simp only [Number.ofNumeral?, Number.numeral, digitsValue_decimalDigits, decide_eq_true_eq,
    significandBound]
  by_cases hn : n < 0
  · have hsize : 0 < n.natAbs ∧ n.natAbs ≤ 0x8000000000000000 := by omega
    have hvalue : -(n.natAbs : Int) = n := by omega
    simp only [hn, decide_true, if_true, hsize, hvalue, and_self]
  · have hsize : n.natAbs < 0x10000000000000000 := by omega
    have hvalue : (n.natAbs : Int) = n := by omega
    simp only [hn, if_false, hsize, hvalue, and_self, if_true]

/-- A member whose name comes after all others is put behind them. -/
theorem putMember_of_forall_lt {α : Type} {name : String} {v : α} {members : List (String × α)}
    (h : ∀ member ∈ members, member.1 < name) :
    putMember name v members = members ++ [(name, v)] := by
  induction members with
  | nil => rfl
  | cons member rest ih =>
      obtain ⟨other, w⟩ := member
      have hlt : other < name := h _ (List.mem_cons_self ..)
      have hnot : ¬name < other := String.lt_asymm hlt
      have hne : name ≠ other := by
        rintro rfl
        exact String.lt_irrefl _ hlt
      rw [putMember, if_neg hnot, if_neg hne, ih fun m hm => h m (List.mem_cons_of_mem _ hm)]
      rfl

private theorem itemsOfWritten?_writtenItems {items : List Value}
    (h : ∀ v ∈ items, Value.ofWritten? v.written = some v) :
    Value.itemsOfWritten? (Value.writtenItems items) = some items := by
  induction items with
  | nil => rfl
  | cons v vs ih =>
      rw [Value.writtenItems, Value.itemsOfWritten?, h v (List.mem_cons_self ..)]
      simp only [ih fun w hw => h w (List.mem_cons_of_mem v hw), Option.map_some]

private theorem membersOfWritten?_writtenMembers (seen : List (String × Value))
    {members : List (String × Value)}
    (sorted : ((seen ++ members).map Prod.fst).Pairwise (· < ·))
    (h : ∀ member ∈ members, Value.ofWritten? member.2.written = some member.2) :
    Value.membersOfWritten? seen (Value.writtenMembers members) = some (seen ++ members) := by
  induction members generalizing seen with
  | nil => simp [Value.writtenMembers, Value.membersOfWritten?]
  | cons member rest ih =>
      obtain ⟨name, v⟩ := member
      have hseen : ∀ m ∈ seen, m.1 < name := by
        intro m hm
        rw [List.map_append, List.pairwise_append] at sorted
        exact sorted.2.2 m.1 (List.mem_map_of_mem hm) name (by simp)
      have hsplit : seen ++ (name, v) :: rest = seen ++ [(name, v)] ++ rest := by simp
      rw [hsplit] at sorted ⊢
      rw [Value.writtenMembers, Value.membersOfWritten?, text?_ofChar, h _ (List.mem_cons_self ..)]
      simp only [putMember_of_forall_lt hseen]
      exact ih (seen ++ [(name, v)]) sorted fun m hm => h m (List.mem_cons_of_mem _ hm)

/-- The document of a canonical value has this value. -/
theorem Value.Canonical.ofWritten? {v : Value} (h : v.Canonical) :
    Value.ofWritten? v.written = some v := by
  induction h with
  | null => rfl
  | boolean b => rfl
  | number hleast hgreatest =>
      rw [Value.written, Value.ofWritten?, ofNumeral?_integer hleast hgreatest, Option.map_some]
  | string s => rw [Value.written, Value.ofWritten?, text?_ofChar, Option.map_some]
  | array _ ih =>
      rw [Value.written, Value.ofWritten?, itemsOfWritten?_writtenItems ih, Option.map_some]
  | object sorted _ ih =>
      rw [Value.written, Value.ofWritten?,
        membersOfWritten?_writtenMembers [] sorted ih, List.nil_append, Option.map_some]

end Content

/-- A text that is cut into the tokens of a canonical value has this value,
unless the value nests deeper than the reader goes. -/
private theorem read?_of_cutsValue {v : Value} (h : v.Canonical) {text : List Char}
    (hcuts : CutsValue text v) :
    Value.read? (String.ofList text) = if v.nesting ≤ depthLimit then some v else none := by
  have htokens := (hcuts [] [] .nil .nil).tokens?
  have hrun := runsTo h [] []
  rw [List.append_nil, List.append_nil] at htokens
  rw [List.append_nil] at hrun
  have hdocument : Written.read? (String.ofList text) = some v.written := by
    rw [Written.read?, htokens, Option.bind_some, Written.ofTokens?, hrun]
    rfl
  rw [Value.read?, hdocument, Option.bind_some, h.ofWritten?]
  rfl

/-- A canonical value is read back from its text on one line. -/
theorem read?_compact {v : Value} (h : v.Canonical) :
    Value.read? v.compact = if v.nesting ≤ depthLimit then some v else none :=
  read?_of_cutsValue h (cutsValue_compact h)

theorem read?_pretty {v : Value} (h : v.Canonical) :
    Value.read? v.pretty = if v.nesting ≤ depthLimit then some v else none :=
  read?_of_cutsValue h (cutsValue_indented h 0)

end Yang.Json
