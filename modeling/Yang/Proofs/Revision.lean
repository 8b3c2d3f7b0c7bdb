import Yang.Proofs.Calendar
import Yang.Revision

/-!
# The dates that revisions name

A revision names a date in one of two forms, with dashes or compactly behind `rev`. `Names` says
so of the characters, without going through the reader. What the reader accepts are the texts that
name a date of the calendar, and all texts that name one date become the same, the form with
dashes, which is read as itself. So revisions are compared as dates when their texts are compared.
-/

namespace Yang

namespace Date

/-- A missing date comes before every date, and dates come in the order of the
days. This is the order that revisions are claimed to have. -/
def NotLater : Option Date → Option Date → Prop
  | none, _ => True
  | some _, none => False
  | some d, some e => d.dayNumber ≤ e.dayNumber

end Date

namespace Revision

def Digits (width : Nat) (cs : List Char) (n : Nat) : Prop :=
  cs.length = width ∧ Literal.Writes 10 cs n

/-- The two forms of a revision, and the year, month and day in them. The form
without dashes begins with a mark and writes the years from 1000 to 2999 only. -/
inductive Spells : List Char → Date → Prop
  | dashed {year month day : List Char} {d : Date} (hyear : Digits 4 year d.year)
      (hmonth : Digits 2 month d.month) (hday : Digits 2 day d.day) :
      Spells (year ++ '-' :: (month ++ '-' :: day)) d
  | compact {year month day : List Char} {d : Date}
      (millennium : year.head? = some '1' ∨ year.head? = some '2') (hyear : Digits 4 year d.year)
      (hmonth : Digits 2 month d.month) (hday : Digits 2 day d.day) :
      Spells ('r' :: 'e' :: 'v' :: (year ++ (month ++ day))) d

/-- The text is a revision that names a date of the calendar. -/
def Names (s : String) (d : Date) : Prop := Spells s.toList d ∧ d.Exists

section Reading

variable {s text : String} {cs year month day : List Char} {d e : Date}

theorem ofDigits?_eq_some_iff :
    Date.ofDigits? year month day = some d ↔
      Literal.Writes 10 year d.year ∧ Literal.Writes 10 month d.month ∧
        Literal.Writes 10 day d.day ∧ d.Exists := by
  have hnumber : ∀ cs n, Text.number? 10 cs = some n ↔ Literal.Writes 10 cs n :=
    fun cs n => Literal.number?_eq_some_iff (by decide)
  simp only [Date.ofDigits?, Option.bind_eq_bind, Option.bind_eq_some_iff, hnumber]
  constructor
  · rintro ⟨y, hy, m, hm, d', hd, h⟩
    split at h
    · rename_i hexists
      obtain rfl := Option.some.inj h
      exact ⟨hy, hm, hd, hexists⟩
    · cases h
  · rintro ⟨hy, hm, hd, hexists⟩
    exact ⟨d.year, hy, d.month, hm, d.day, hd, if_pos hexists⟩

/-- What is read are the two forms of dates of the calendar. Digits and dashes
are taken at fixed places, so both forms have one reading. -/
theorem dateOfChars?_eq_some_iff : dateOfChars? cs = some d ↔ Spells cs d ∧ d.Exists := by
  constructor
  · intro h
    unfold dateOfChars? at h
    split at h
    case h_1 y1 y2 y3 y4 m1 m2 d1 d2 =>
      obtain ⟨hy, hm, hd, hexists⟩ := ofDigits?_eq_some_iff.mp h
      have hspells : Spells ([y1, y2, y3, y4] ++ '-' :: ([m1, m2] ++ '-' :: [d1, d2])) d :=
        .dashed ⟨rfl, hy⟩ ⟨rfl, hm⟩ ⟨rfl, hd⟩
      exact ⟨hspells, hexists⟩
    case h_2 y1 y2 y3 y4 m1 m2 d1 d2 =>
      split at h
      · rename_i millennium
        obtain ⟨hy, hm, hd, hexists⟩ := ofDigits?_eq_some_iff.mp h
        have hspells :
            Spells ('r' :: 'e' :: 'v' :: ([y1, y2, y3, y4] ++ ([m1, m2] ++ [d1, d2]))) d :=
          .compact (by simpa using millennium) ⟨rfl, hy⟩ ⟨rfl, hm⟩ ⟨rfl, hd⟩
        exact ⟨hspells, hexists⟩
      · cases h
    case h_3 => cases h
  · rintro ⟨hspells, hexists⟩
    cases hspells with
    | @dashed year month day _ hyear hmonth hday =>
        obtain ⟨y1, y2, y3, y4, rfl⟩ := List.length_eq_four.mp hyear.1
        obtain ⟨m1, m2, rfl⟩ := List.length_eq_two.mp hmonth.1
        obtain ⟨d1, d2, rfl⟩ := List.length_eq_two.mp hday.1
        simp only [List.cons_append, List.nil_append, dateOfChars?]
        exact ofDigits?_eq_some_iff.mpr ⟨hyear.2, hmonth.2, hday.2, hexists⟩
    | @compact year month day _ millennium hyear hmonth hday =>
        obtain ⟨y1, y2, y3, y4, rfl⟩ := List.length_eq_four.mp hyear.1
        obtain ⟨m1, m2, rfl⟩ := List.length_eq_two.mp hmonth.1
        obtain ⟨d1, d2, rfl⟩ := List.length_eq_two.mp hday.1
        simp only [List.cons_append, List.nil_append, dateOfChars?]
        rw [if_pos (by simpa using millennium)]
        exact ofDigits?_eq_some_iff.mpr ⟨hyear.2, hmonth.2, hday.2, hexists⟩

theorem date?_eq_some_iff : date? s = some d ↔ Names s d := dateOfChars?_eq_some_iff

theorem parse?_eq_some_iff : parse? s = some text ↔ ∃ d, Names s d ∧ d.text = text := by
  rw [parse?, Option.map_eq_some_iff]
  simp only [date?_eq_some_iff]

/-- Behind `rev` a year begins with one or two, so an earlier year needs the
dashes. -/
example : parse? "rev09991231" = none ∧ parse? "0999-12-31" = some "0999-12-31" := by decide

theorem Names.unique (hd : Names s d) (he : Names s e) : d = e := by
  rw [← date?_eq_some_iff] at hd he
  exact Option.some.inj (hd.symm.trans he)

theorem names_text (h : d.Exists) : Names d.text d := by
  obtain ⟨hyear, hmonth, hday⟩ := h.widths
  refine ⟨?_, h⟩
  rw [Date.text, String.toList_ofList, Date.chars, List.append_assoc, List.cons_append]
  exact .dashed ⟨Date.padded_length .., Date.writes_padded hyear⟩
    ⟨Date.padded_length .., Date.writes_padded hmonth⟩
    ⟨Date.padded_length .., Date.writes_padded hday⟩

end Reading

section Canonical

variable {s s' text text' : String} {r r' : Option String} {d d' : Option Date}

/-- What a revision is read as is the text of the date that it names. -/
theorem parse?_of_names {d : Date} (h : Names s d) : parse? s = some d.text :=
  parse?_eq_some_iff.mpr ⟨d, h, rfl⟩

/-- What is read names the same date and is read as itself. -/
theorem parse?_parse? (h : parse? s = some text) :
    parse? text = some text ∧ ∃ d, Names s d ∧ Names text d := by
  obtain ⟨d, hd, rfl⟩ := parse?_eq_some_iff.mp h
  have htext : Names d.text d := names_text hd.2
  exact ⟨parse?_of_names htext, d, hd, htext⟩

theorem parse?_eq_parse?_iff (h : parse? s = some text) (h' : parse? s' = some text') :
    text = text' ↔ ∃ d, Names s d ∧ Names s' d := by
  obtain ⟨d, hd, rfl⟩ := parse?_eq_some_iff.mp h
  obtain ⟨e, he, rfl⟩ := parse?_eq_some_iff.mp h'
  constructor
  · intro htexts
    have htext := names_text hd.2
    rw [htexts] at htext
    obtain rfl := htext.unique (names_text he.2)
    exact ⟨d, hd, he⟩
  · rintro ⟨common, hcommon, hcommon'⟩
    rw [hd.unique hcommon, he.unique hcommon']

/-- What is read is in the order of the dates. -/
theorem le_iff_notLater (h : Option.Rel Names r d) (h' : Option.Rel Names r' d') :
    le (r.bind parse?) (r'.bind parse?) = true ↔ Date.NotLater d d' := by
  cases h with
  | none => exact iff_of_true rfl trivial
  | some hd =>
      cases h' with
      | none =>
          rw [Option.bind_some, parse?_of_names hd]
          exact iff_of_false nofun not_false
      | some he =>
          rw [Option.bind_some, Option.bind_some, parse?_of_names hd, parse?_of_names he, le,
            decide_eq_true_eq, Date.text_le_text_iff hd.2 he.2, Date.NotLater]

end Canonical

end Revision

end Yang
