import Conform.Document.Reading
import Conform.Proofs.Document
import Conform.Proofs.Json.Number
import Conform.Proofs.Json.Strings
import Conform.Proofs.Text.Encoding
import Mathlib.Tactic.IntervalCases

/-! The canonical text of a document reads back as the document, with the members of its objects in
the order of their names. -/
namespace Conform

namespace Document

mutual

/-- The document with the members of all its objects in the order of their names. -/
def sorted : Document → Document
  | list items => list (sortedItems items)
  | object ms => object ((sortedMembers ms).mergeSort fun a b => Text.le a.1 b.1)
  | d => d

def sortedItems : List Document → List Document
  | [] => []
  | d :: rest => sorted d :: sortedItems rest

def sortedMembers : Members → Members
  | [] => []
  | (k, d) :: rest => (k, sorted d) :: sortedMembers rest

end

variable {d : Document}

theorem sortedItems_eq (items : List Document) : sortedItems items = items.map sorted := by
  induction items with
  | nil => rfl
  | cons d rest ih => rw [sortedItems, ih, List.map_cons]

theorem sortedMembers_eq (ms : Members) : sortedMembers ms = ms.map fun m => (m.1, m.2.sorted) := by
  induction ms with
  | nil => rfl
  | cons m rest ih => rw [sortedMembers, ih, List.map_cons]

/-- Putting members in order does not depend on their values. -/
theorem mergeSort_map {α β : Type} (f : α → β) (ms : List (Text × α)) :
    (ms.map fun m => (m.1, f m.2)).mergeSort (fun a b => Text.le a.1 b.1) =
      (ms.mergeSort fun a b => Text.le a.1 b.1).map fun m => (m.1, f m.2) :=
  (List.map_mergeSort (r := fun a b : Text × α => Text.le a.1 b.1)
    (s := fun a b : Text × β => Text.le a.1 b.1) (f := fun m => (m.1, f m.2)) fun _ _ _ _ => rfl).symm

/-- What holds of a document whenever it holds of its parts, holds of all. -/
theorem induction_on {P : Document → Prop} (hStep : ∀ d, (∀ part, Part d part → P part) → P d) (d : Document) :
    P d := by
  refine hStep d fun part hPart => ?_
  have hLess : sizeOf part < sizeOf d := by
    cases hPart with
    | item hMem =>
        have hItem := List.sizeOf_lt_of_mem hMem
        simp only [list.sizeOf_spec]
        omega
    | member hMem =>
        have hMember := List.sizeOf_lt_of_mem hMem
        simp only [object.sizeOf_spec, Prod.mk.sizeOf_spec] at hMember ⊢
        omega
  exact induction_on hStep part
termination_by sizeOf d

end Document

namespace Json

open Document (Part WellFormed)

variable {d : Document} {items : List Document} {ms : Members} {level fuel : Nat} {rest t : Text}

section Printed

theorem printItems_eq (s : Style) (level : Nat) (items : List Document) :
    printItems s level items = items.map (print s level) := by
  induction items with
  | nil => rfl
  | cons d others ih => rw [printItems, ih, List.map_cons]

theorem printMembers_eq (s : Style) (level : Nat) (ms : Members) :
    printMembers s level ms = ms.map fun m => (m.1, print s level m.2) := by
  induction ms with
  | nil => rfl
  | cons m others ih => rw [printMembers, ih, List.map_cons]

/-- The parts of a list or an object with commas between them. -/
def joined (parts : List Text) : Text := Text.join [Point.ofChar ','] parts

theorem wrap_canonical (level : Nat) (opening closing : Char) (parts : List Text) :
    wrap .canonical level opening closing parts =
      Point.ofChar opening :: (joined parts ++ [Point.ofChar closing]) := by
  have hComma : Text.ofString "," = [Point.ofChar ','] := by decide
  cases parts with
  | nil => rfl
  | cons part others =>
      simp only [wrap, newline, Style.canonical, List.isEmpty_cons, Bool.false_eq_true, if_false, List.append_nil,
        hComma, List.cons_append]
      rfl

theorem print_list (level : Nat) (items : List Document) : print .canonical level (.list items) =
    Point.ofChar '[' :: (joined (items.map (print .canonical (level + 1))) ++ [Point.ofChar ']']) := by
  rw [print, printItems_eq, wrap_canonical]

/-- A member as it is written. -/
def printMember (level : Nat) (m : Text × Document) : Text :=
  string false m.1 ++ (Point.ofChar ':' :: print .canonical level m.2)

theorem print_object (level : Nat) (ms : Members) : print .canonical level (.object ms) =
    Point.ofChar '\x7b' :: (joined ((ms.mergeSort fun a b => Text.le a.1 b.1).map
      (printMember (level + 1))) ++ [Point.ofChar '\x7d']) := by
  have hColon : Text.ofString ":" = [Point.ofChar ':'] := by decide
  have hArranged : arranged true (ms.map fun m => (m.1, print .canonical (level + 1) m.2)) =
      (ms.mergeSort fun a b => Text.le a.1 b.1).map fun m => (m.1, print .canonical (level + 1) m.2) :=
    Document.mergeSort_map _ ms
  have hSorted : Style.canonical.sorted = true := rfl
  rw [print, printMembers_eq, wrap_canonical, hSorted, hArranged, List.map_map]
  refine congrArg (fun parts => Point.ofChar '\x7b' :: (joined parts ++ [Point.ofChar '\x7d'])) ?_
  refine List.map_congr_left fun m _ => ?_
  simp only [Function.comp_apply, Style.canonical, Bool.false_eq_true, if_false, hColon, printMember,
    List.append_assoc, List.singleton_append]

theorem string_eq (t : Text) :
    string false t = Point.ofChar '"' :: (t.flatMap (escapePoint false) ++ [Point.ofChar '"']) := by
  have hQuote : Text.ofString "\"" = [Point.ofChar '"'] := by decide
  rw [string, hQuote]
  rfl

/-- The inside of a text and its closing quote are read with the fuel that there is. -/
theorem stringRest?_quoted (t acc rest : Text) :
    stringRest? ((t.flatMap (escapePoint false) ++ Point.ofChar '"' :: rest).length + 1) acc
      (t.flatMap (escapePoint false) ++ Point.ofChar '"' :: rest) = some (acc.reverse ++ t, rest) := by
  refine stringRest?_string ?_ acc rest
  have hLength := length_le_escaped t
  rw [List.length_append]
  omega

end Printed

section Heads

/-- The characters with which a value begins. -/
def openings : List Point :=
  (List.range 10).map Text.digitPoint ++ ['-', 'n', 't', 'f', 'N', 'I', '"', '[', '\x7b'].map Point.ofChar

theorem isGap_of_openings {p : Point} (h : p ∈ openings) : isGap p = false := by
  have hAll : openings.all (!isGap ·) = true := by decide
  simpa using List.all_eq_true.mp hAll p h

theorem ne_closing_of_openings {p : Point} (h : p ∈ openings) : (p.char == ']') = false ∧ (p.char == '\x7d') = false := by
  have hAll : openings.all (fun p => !(p.char == ']') && !(p.char == '\x7d')) = true := by decide
  simpa using List.all_eq_true.mp hAll p h

theorem skipGaps_of_openings (h : ∀ p ∈ t.head?, p ∈ openings) : skipGaps t = t := by
  cases t with
  | nil => rfl
  | cons p others => rw [skipGaps, List.dropWhile_cons, isGap_of_openings (h p rfl), if_neg (by decide)]

theorem skipGaps_of_closes (h : Closes t) : skipGaps t = t := by
  have hAll : closings.all (!isGap ·) = true := by decide
  cases t with
  | nil => rfl
  | cons p others =>
      have hSolid : isGap p = false := by simpa using List.all_eq_true.mp hAll p (h p rfl)
      rw [skipGaps, List.dropWhile_cons, hSolid, if_neg (by decide)]

theorem head_numeral {n : Numeral} (h : n.WellFormed) :
    ∃ p others, n.text = p :: others ∧ p ∈ openings := by
  have hMinus : Point.ofChar '-' ∈ openings := List.mem_append_right _ (List.mem_map_of_mem (by simp))
  rw [Numeral.text]
  cases n.negative with
  | true => exact ⟨_, _, rfl, hMinus⟩
  | false =>
      obtain ⟨d, hDigit, others, hBody⟩ := Numeral.exists_body h
      exact ⟨_, others, hBody, List.mem_append_left _ (List.mem_map_of_mem (List.mem_range.mpr hDigit))⟩

end Heads

section Reading

/-- Whether the canonical text of a document is read back from before anything that can follow it. -/
def Reads (d : Document) : Prop := ∀ level fuel rest, Closes rest →
  (print .canonical level d).length ≤ fuel →
    value fuel (print .canonical level d ++ rest) = some (d.sorted, rest)

/-- Whether a text begins like a value. -/
def Begins (t : Text) : Prop := ∃ p others, t = p :: others ∧ p ∈ openings

/-- Whether the canonical text of a document begins like a value. -/
def Opens (d : Document) : Prop := ∀ level, Begins (print .canonical level d)

/-- Each word is known by its first character. -/
theorem words_spec {w : String} (hMem : (w, d) ∈ words) : ∃ p others, Text.ofString w = p :: others ∧
    p ∈ openings ∧ p.char ∉ ['"', '[', '\x7b'] ∧ ∀ rest, word? (Text.ofString w ++ rest) = some (d, rest) := by
  have hNull : Text.ofString "null" = ['n', 'u', 'l', 'l'].map Point.ofChar := by decide
  have hTrue : Text.ofString "true" = ['t', 'r', 'u', 'e'].map Point.ofChar := by decide
  have hFalse : Text.ofString "false" = ['f', 'a', 'l', 's', 'e'].map Point.ofChar := by decide
  have hNan : Text.ofString "NaN" = ['N', 'a', 'N'].map Point.ofChar := by decide
  have hInfinity : Text.ofString "Infinity" = ['I', 'n', 'f', 'i', 'n', 'i', 't', 'y'].map Point.ofChar := by
    decide
  have hNegative : Text.ofString "-Infinity" = ['-', 'I', 'n', 'f', 'i', 'n', 'i', 't', 'y'].map Point.ofChar := by
    decide
  simp only [words, List.mem_cons, Prod.mk.injEq, List.not_mem_nil, or_false] at hMem
  rcases hMem with ⟨rfl, rfl⟩ | ⟨rfl, rfl⟩ | ⟨rfl, rfl⟩ | ⟨rfl, rfl⟩ | ⟨rfl, rfl⟩ | ⟨rfl, rfl⟩
  · exact ⟨_, _, hNull, by decide, by decide +kernel, fun rest => by rw [hNull]; rfl⟩
  · exact ⟨_, _, hTrue, by decide, by decide +kernel, fun rest => by rw [hTrue]; rfl⟩
  · exact ⟨_, _, hFalse, by decide, by decide +kernel, fun rest => by rw [hFalse]; rfl⟩
  · exact ⟨_, _, hNan, by decide, by decide +kernel, fun rest => by rw [hNan]; rfl⟩
  · exact ⟨_, _, hInfinity, by decide, by decide +kernel, fun rest => by rw [hInfinity]; rfl⟩
  · exact ⟨_, _, hNegative, by decide, by decide +kernel, fun rest => by rw [hNegative]; rfl⟩

/-- A value that begins neither like a text nor like a list or an object is a word or a number. -/
theorem value_other {p : Point} (hOther : p.char ∉ ['"', '[', '\x7b']) (fuel : Nat) (t : Text) :
    value (fuel + 1) (p :: t) = (word? (p :: t)).or (number? (p :: t)) := by
  simp only [List.mem_cons, List.not_mem_nil, or_false, not_or] at hOther
  rw [value]
  simp only [beq_eq_false_iff_ne.mpr hOther.1, beq_eq_false_iff_ne.mpr hOther.2.1, beq_eq_false_iff_ne.mpr hOther.2.2,
    Bool.false_eq_true, if_false]

theorem value_word {w : String} (hMem : (w, d) ∈ words) (hLength : (Text.ofString w).length ≤ fuel) (rest : Text) :
    value fuel (Text.ofString w ++ rest) = some (d, rest) := by
  obtain ⟨p, others, hText, _, hOther, hWord⟩ := words_spec hMem
  have hWord := hWord rest
  obtain ⟨left, rfl⟩ : ∃ left, fuel = left + 1 := ⟨fuel - 1, by rw [hText, List.length_cons] at hLength; omega⟩
  rw [hText] at hWord ⊢
  rw [List.cons_append] at hWord ⊢
  rw [value_other hOther, hWord, Option.some_or]

theorem value_numeral {n : Numeral} (h : n.WellFormed) (hLength : n.text.length ≤ fuel) (rest : Text) :
    value fuel (n.text ++ rest) = number? (n.text ++ rest) := by
  have hMinus : ∀ d < 10, ∀ t, word? (Point.ofChar '-' :: Text.digitPoint d :: t) = none := by
    intro d hDigit t
    interval_cases d <;> rfl
  have hPlain : ∀ d < 10, ∀ t, word? (Text.digitPoint d :: t) = none := by
    intro d hDigit t
    interval_cases d <;> rfl
  have hOthers : ∀ d < 10, (Text.digitPoint d).char ∉ ['"', '[', '\x7b'] := by decide
  have hOther : (Point.ofChar '-').char ∉ ['"', '[', '\x7b'] := by decide
  obtain ⟨d, hDigit, others, hBody⟩ := Numeral.exists_body h
  obtain ⟨left, rfl⟩ : ∃ left, fuel = left + 1 := ⟨fuel - 1, by
    rw [Numeral.text, hBody, List.length_append, List.length_cons] at hLength
    omega⟩
  rw [Numeral.text, hBody]
  cases n.negative with
  | true =>
      show value (left + 1) (Point.ofChar '-' :: Text.digitPoint d :: (others ++ rest)) = _
      rw [value_other hOther, hMinus d hDigit, Option.none_or]
      rfl
  | false =>
      show value (left + 1) (Text.digitPoint d :: (others ++ rest)) = _
      rw [value_other (hOthers d hDigit), hPlain d hDigit, Option.none_or]
      rfl

theorem closes_ofChar {c : Char} (h : Point.ofChar c ∈ closings) (rest : Text) : Closes (Point.ofChar c :: rest) :=
  fun _ hP => Option.some.inj hP ▸ h

theorem joined_cons {part : Text} {parts : List Text} (hSome : parts ≠ []) :
    joined (part :: parts) = part ++ Point.ofChar ',' :: joined parts := by
  cases parts with
  | nil => exact absurd rfl hSome
  | cons second others => simp [joined, Text.join]

theorem begins_joined {parts : List Text} (h : ∀ part ∈ parts, Begins part) (hSome : parts ≠ []) (rest : Text) :
    Begins (joined parts ++ rest) := by
  obtain ⟨first, more, rfl⟩ := List.exists_cons_of_ne_nil hSome
  obtain ⟨p, others, rfl, hMem⟩ := h first List.mem_cons_self
  by_cases hLast : more = []
  · subst hLast
    exact ⟨p, others ++ rest, rfl, hMem⟩
  · rw [joined_cons hLast, List.cons_append, List.cons_append]
    exact ⟨p, _, rfl, hMem⟩

theorem begins_append (h : Begins t) (rest : Text) : Begins (t ++ rest) := by
  obtain ⟨p, others, rfl, hMem⟩ := h
  exact ⟨p, others ++ rest, rfl, hMem⟩

theorem begins_string (t : Text) : Begins (string false t) := by
  rw [string_eq]
  exact ⟨_, _, rfl, by decide⟩

theorem begins_printMember (level : Nat) (m : Text × Document) : Begins (printMember level m) :=
  begins_append (begins_string m.1) _

theorem skipGaps_of_begins (h : Begins t) : skipGaps t = t := by
  obtain ⟨p, others, rfl, hMem⟩ := h
  exact skipGaps_of_openings fun q hQ => Option.some.inj hQ ▸ hMem

/-- Items with commas between them are read up to the closing bracket. -/
theorem items_joined (h : ∀ d ∈ items, Reads d ∧ Opens d) (hSome : items ≠ []) (level : Nat) (rest : Text)
    (hFuel : (joined (items.map (print .canonical level))).length < fuel) :
    Json.items fuel (joined (items.map (print .canonical level)) ++ Point.ofChar ']' :: rest) =
      some (items.map Document.sorted, rest) := by
  have hEnd : ((Point.ofChar ']').char == ']') = true := by decide
  have hComma : ((Point.ofChar ',').char == ']') = false ∧ ((Point.ofChar ',').char == ',') = true := by
    decide
  have hCloses : Point.ofChar ']' ∈ closings ∧ Point.ofChar ',' ∈ closings := by decide
  induction items generalizing fuel with
  | nil => exact absurd rfl hSome
  | cons d others ih =>
      obtain ⟨left, rfl⟩ : ∃ left, fuel = left + 1 := ⟨fuel - 1, by omega⟩
      obtain ⟨⟨hReads, hOpens⟩, hOthers⟩ := List.forall_mem_cons.mp h
      by_cases hLast : others = []
      · subst hLast
        have hRest := closes_ofChar hCloses.1 rest
        have hValue := hReads level left _ hRest (by simpa [joined, Text.join] using Nat.le_of_lt_succ hFuel)
        simp only [List.map_cons, List.map_nil, joined, Text.join, Json.items, hValue, Option.bind_some,
          skipGaps_of_closes hRest, hEnd, if_true]
      · have hMap : others.map (print .canonical level) ≠ [] := by simpa using hLast
        rw [List.map_cons, joined_cons hMap, List.length_append, List.length_cons] at hFuel
        rw [List.map_cons, joined_cons hMap, List.append_assoc, List.cons_append]
        have hRest := closes_ofChar hCloses.2 (joined (others.map (print .canonical level)) ++ Point.ofChar ']' :: rest)
        have hValue := hReads level left _ hRest (by omega)
        have hBegins : Begins (joined (others.map (print .canonical level)) ++ Point.ofChar ']' :: rest) := by
          refine begins_joined (fun part hMem => ?_) hMap _
          obtain ⟨other, hOther, rfl⟩ := List.mem_map.mp hMem
          exact (hOthers other hOther).2 level
        have hMore := ih hOthers hLast (show _ < left by omega)
        simp only [Json.items, hValue, Option.bind_some, skipGaps_of_closes hRest, hComma, Bool.false_eq_true,
          if_false, if_true, skipGaps_of_begins hBegins, hMore, Option.map_some, List.map_cons]

theorem reads_list (h : ∀ d ∈ items, Reads d ∧ Opens d) : Reads (.list items) := by
  have hOpen : ((Point.ofChar '[').char == '"') = false ∧ ((Point.ofChar '[').char == '[') = true := by
    decide
  have hEnd : ((Point.ofChar ']').char == ']') = true := by decide
  have hCloses : Point.ofChar ']' ∈ closings := by decide
  intro level fuel rest hRest hFuel
  rw [print_list] at hFuel ⊢
  simp only [List.length_cons, List.length_append, List.length_nil] at hFuel
  obtain ⟨left, rfl⟩ : ∃ left, fuel = left + 1 := ⟨fuel - 1, by omega⟩
  rw [List.cons_append, List.append_assoc, List.singleton_append, Document.sorted, Document.sortedItems_eq]
  by_cases hNone : items = []
  · subst hNone
    have hGaps := skipGaps_of_closes (closes_ofChar hCloses rest)
    simp only [List.map_nil, joined, Text.join, List.nil_append, value, hOpen, hGaps, hEnd, Bool.false_eq_true,
      if_false, if_true]
  · have hMap : items.map (print .canonical (level + 1)) ≠ [] := by simpa using hNone
    have hBegins := begins_joined (fun part hMem => by
      obtain ⟨d, hD, rfl⟩ := List.mem_map.mp hMem
      exact (h d hD).2 (level + 1)) hMap (Point.ofChar ']' :: rest)
    have hItems := items_joined h hNone (level + 1) rest (show _ < left by omega)
    have hGaps := skipGaps_of_begins hBegins
    obtain ⟨p, others, hText, hMem⟩ := hBegins
    rw [hText] at hItems hGaps ⊢
    have hClosing := (ne_closing_of_openings hMem).1
    simp only [value, hOpen, hGaps, hClosing, hItems, Bool.false_eq_true, if_false, if_true, Option.map_some]

/-- A name is read up to its colon. -/
theorem name?_string (k rest : Text) :
    name? (string false k ++ Point.ofChar ':' :: rest) = some (k, rest) := by
  have hQuote : ((Point.ofChar '"').char == '"') = true := by decide
  have hColon : ((Point.ofChar ':').char == ':') = true := by decide
  have hGaps : skipGaps (Point.ofChar ':' :: rest) = Point.ofChar ':' :: rest := by
    have hSolid : isGap (Point.ofChar ':') = false := by decide
    rw [skipGaps, List.dropWhile_cons, hSolid, if_neg (by decide)]
  have hName := stringRest?_quoted k [] (Point.ofChar ':' :: rest)
  rw [string_eq, List.cons_append, List.append_assoc, List.singleton_append]
  simp only [name?, hQuote, if_true, hName, Option.bind_some, hGaps, hColon, List.reverse_nil, List.nil_append]

theorem members_joined (h : ∀ m ∈ ms, Reads m.2 ∧ Opens m.2) (hSome : ms ≠ []) (level : Nat) (rest : Text)
    (hFuel : (joined (ms.map (printMember level))).length < fuel) :
    members fuel (joined (ms.map (printMember level)) ++ Point.ofChar '\x7d' :: rest) =
      some (ms.map fun m => (m.1, m.2.sorted), rest) := by
  have hEnd : ((Point.ofChar '\x7d').char == '\x7d') = true := by decide
  have hComma : ((Point.ofChar ',').char == '\x7d') = false ∧ ((Point.ofChar ',').char == ',') = true := by
    decide
  have hCloses : Point.ofChar '\x7d' ∈ closings ∧ Point.ofChar ',' ∈ closings := by decide
  induction ms generalizing fuel with
  | nil => exact absurd rfl hSome
  | cons m others ih =>
      obtain ⟨left, rfl⟩ : ∃ left, fuel = left + 1 := ⟨fuel - 1, by omega⟩
      obtain ⟨⟨hReads, hOpens⟩, hOthers⟩ := List.forall_mem_cons.mp h
      by_cases hLast : others = []
      · subst hLast
        have hRest := closes_ofChar hCloses.1 rest
        simp only [List.map_cons, List.map_nil, joined, Text.join, printMember, List.length_append, List.length_cons]
          at hFuel
        have hValue := hReads level left _ hRest (by omega)
        have hGaps := skipGaps_of_begins (begins_append (hOpens level) (Point.ofChar '\x7d' :: rest))
        simp only [List.map_cons, List.map_nil, joined, Text.join, printMember, List.append_assoc, List.cons_append,
          members, name?_string, hGaps, hValue, Option.bind_some, skipGaps_of_closes hRest, hEnd, if_true]
      · have hMap : others.map (printMember level) ≠ [] := by simpa using hLast
        rw [List.map_cons, joined_cons hMap, List.length_append, List.length_cons] at hFuel
        rw [List.map_cons, joined_cons hMap, List.append_assoc, List.cons_append]
        simp only [printMember, List.length_append, List.length_cons] at hFuel
        have hRest := closes_ofChar hCloses.2 (joined (others.map (printMember level)) ++ Point.ofChar '\x7d' :: rest)
        have hValue := hReads level left _ hRest (by omega)
        have hBegins : Begins (joined (others.map (printMember level)) ++ Point.ofChar '\x7d' :: rest) := by
          refine begins_joined (fun part hMem => ?_) hMap _
          obtain ⟨other, _, rfl⟩ := List.mem_map.mp hMem
          exact begins_printMember level other
        have hGaps := skipGaps_of_begins (begins_append (hOpens level)
          (Point.ofChar ',' :: (joined (others.map (printMember level)) ++ Point.ofChar '\x7d' :: rest)))
        have hMore := ih hOthers hLast (show _ < left by omega)
        simp only [printMember, List.append_assoc, List.cons_append]
        simp only [members, name?_string, hGaps, hValue, Option.bind_some, skipGaps_of_closes hRest, hComma,
          Bool.false_eq_true, if_false, if_true, skipGaps_of_begins hBegins, hMore, Option.map_some, List.map_cons]

theorem reads_object (hNodup : (Members.names ms).Nodup) (h : ∀ m ∈ ms, Reads m.2 ∧ Opens m.2) :
    Reads (.object ms) := by
  have hOpen : ((Point.ofChar '\x7b').char == '"') = false ∧ ((Point.ofChar '\x7b').char == '[') = false ∧
      ((Point.ofChar '\x7b').char == '\x7b') = true := by decide
  have hEnd : ((Point.ofChar '\x7d').char == '\x7d') = true := by decide
  have hCloses : Point.ofChar '\x7d' ∈ closings := by decide
  have hPerm := List.mergeSort_perm ms fun a b => Text.le a.1 b.1
  intro level fuel rest hRest hFuel
  rw [print_object] at hFuel ⊢
  rw [Document.sorted, Document.sortedMembers_eq, Document.mergeSort_map]
  generalize ms.mergeSort (fun a b => Text.le a.1 b.1) = arrangedMs at *
  have hParts : ∀ m ∈ arrangedMs, Reads m.2 ∧ Opens m.2 := fun m hMem => h m (hPerm.mem_iff.mp hMem)
  simp only [List.length_cons, List.length_append, List.length_nil] at hFuel
  obtain ⟨left, rfl⟩ : ∃ left, fuel = left + 1 := ⟨fuel - 1, by omega⟩
  rw [List.cons_append, List.append_assoc, List.singleton_append]
  by_cases hNone : arrangedMs = []
  · subst hNone
    have hGaps := skipGaps_of_closes (closes_ofChar hCloses rest)
    simp only [List.map_nil, joined, Text.join, List.nil_append, value, hOpen, hGaps, hEnd, Bool.false_eq_true,
      if_false, if_true]
  · have hMap : arrangedMs.map (printMember (level + 1)) ≠ [] := by simpa using hNone
    have hBegins := begins_joined (fun part hMem => by
      obtain ⟨m, _, rfl⟩ := List.mem_map.mp hMem
      exact begins_printMember (level + 1) m) hMap (Point.ofChar '\x7d' :: rest)
    have hMembers := members_joined hParts hNone (level + 1) rest (show _ < left by omega)
    have hGaps := skipGaps_of_begins hBegins
    have hEntered : Members.ofList (arrangedMs.map fun m => (m.1, m.2.sorted)) =
        arrangedMs.map fun m => (m.1, m.2.sorted) := by
      refine Members.ofList_of_nodup ?_
      have hNames : (Members.names arrangedMs).Nodup := (hPerm.map Prod.fst).nodup_iff.mpr hNodup
      simpa [Members.names, Function.comp_def] using hNames
    obtain ⟨p, others, hText, hMem⟩ := hBegins
    rw [hText] at hMembers hGaps ⊢
    have hClosing := (ne_closing_of_openings hMem).2
    simp only [value, hOpen, hGaps, hClosing, hMembers, hEntered, Bool.false_eq_true, if_false, if_true,
      Option.map_some]

theorem reads_text (t : Text) : Reads (.text t) := by
  have hQuote : ((Point.ofChar '"').char == '"') = true := by decide
  intro level fuel rest hRest hFuel
  rw [print, show Style.canonical.ascii = false from rfl, string_eq] at hFuel ⊢
  obtain ⟨left, rfl⟩ : ∃ left, fuel = left + 1 := ⟨fuel - 1, by rw [List.length_cons] at hFuel; omega⟩
  have hText := stringRest?_quoted t [] rest
  rw [List.cons_append, List.append_assoc, List.singleton_append]
  simp only [value, hQuote, if_true, hText, Option.map_some, List.reverse_nil, List.nil_append]
  rfl

/-- A number that is written as a numeral is read back if the numeral is. -/
theorem reads_numeral {n : Numeral} (h : n.WellFormed) (hText : ∀ level, print .canonical level d = n.text)
    (hRead : ∀ rest, Closes rest → number? (n.text ++ rest) = some (d, rest)) (hSame : d.sorted = d) :
    Reads d ∧ Opens d := by
  refine ⟨fun level fuel rest hRest hFuel => ?_, fun level => ?_⟩
  · rw [hText] at hFuel ⊢
    rw [value_numeral h hFuel, hRead rest hRest, hSame]
  · rw [hText]
    exact head_numeral h

theorem reads_word {w : String} (hMem : (w, d) ∈ words) (hText : ∀ level, print .canonical level d = Text.ofString w)
    (hSame : d.sorted = d) : Reads d ∧ Opens d := by
  refine ⟨fun level fuel rest _ hFuel => ?_, fun level => ?_⟩
  · rw [hText] at hFuel ⊢
    rw [value_word hMem hFuel, hSame]
  · obtain ⟨p, others, hWord, hOpens, _⟩ := words_spec hMem
    rw [hText]
    exact ⟨p, others, hWord, hOpens⟩

theorem reads_float {x : Double} (hNormal : x.Normal) : Reads (.float x) ∧ Opens (.float x) := by
  cases x with
  | nan => exact reads_word (w := "NaN") (by simp [words]) (fun _ => rfl) rfl
  | infinite s =>
      cases s with
      | false => exact reads_word (w := "Infinity") (by simp [words]) (fun _ => rfl) rfl
      | true => exact reads_word (w := "-Infinity") (by simp [words]) (fun _ => rfl) rfl
  | finite s m e =>
      obtain ⟨n, hForm, _, hText, _⟩ := Double.display_finite hNormal
      refine reads_numeral hForm (fun _ => hText) (fun rest hRest => ?_) rfl
      rw [← hText]
      exact number?_display hNormal hRest

theorem itemObstacle?_eq_none : itemObstacle? items = none ↔ ∀ d ∈ items, obstacle? d = none := by
  induction items with
  | nil => simp [itemObstacle?]
  | cons d others ih => rw [itemObstacle?, Option.or_eq_none_iff, ih, List.forall_mem_cons]

theorem memberObstacles_eq (ms : Members) : memberObstacles ms = ms.map fun m => (m.1, obstacle? m.2) := by
  induction ms with
  | nil => rfl
  | cons m others ih => rw [memberObstacles, ih, List.map_cons]

theorem obstacle?_object : obstacle? (.object ms) = none ↔ ∀ m ∈ ms, obstacle? m.2 = none := by
  rw [obstacle?, List.findSome?_eq_none_iff, memberObstacles_eq]
  refine ⟨fun h m hMem => h (m.1, obstacle? m.2) ?_, fun h e hMem => ?_⟩
  · exact List.mem_mergeSort.mpr (List.mem_map_of_mem hMem)
  · obtain ⟨m, hM, rfl⟩ := List.mem_map.mp (List.mem_mergeSort.mp hMem)
    exact h m hM

/-- No part of what can be written is in the way of writing. -/
theorem obstacle?_part (h : obstacle? d = none) {part : Document} (hPart : Part d part) : obstacle? part = none := by
  cases hPart with
  | item hMem => exact itemObstacle?_eq_none.mp h _ hMem
  | member hMem => exact obstacle?_object.mp h _ hMem

/-- What is well formed and can be written is read back from its canonical text. -/
theorem reads (hWell : WellFormed d) (hNone : obstacle? d = none) : Reads d ∧ Opens d := by
  induction d using Document.induction_on with
  | hStep d ih =>
      have hParts : ∀ part, Part d part → Reads part ∧ Opens part := fun part hPart =>
        ih part hPart (hWell.inside (.single hPart)) (obstacle?_part hNone hPart)
      cases d with
      | null => exact reads_word (w := "null") (by simp [words]) (fun _ => rfl) rfl
      | bool b =>
          cases b with
          | false => exact reads_word (w := "false") (by simp [words]) (fun _ => rfl) rfl
          | true => exact reads_word (w := "true") (by simp [words]) (fun _ => rfl) rfl
      | int n =>
          refine reads_numeral (wholeNumeral_wellFormed n) (fun _ => text_wholeNumeral n) (fun rest hRest => ?_) rfl
          have hShort : (Text.ofNat n.natAbs).length ≤ Text.maxDigits := by
            simpa [obstacle?] using hNone
          rw [← text_wholeNumeral]
          exact number?_ofInt hShort hRest
      | float x => exact reads_float (hWell _ .refl)
      | text t => exact ⟨reads_text t, fun level => begins_string t⟩
      | moment m => cases hNone
      | list items =>
          refine ⟨reads_list fun d hMem => hParts d (.item hMem), fun level => ?_⟩
          rw [print_list]
          exact ⟨_, _, rfl, by decide⟩
      | object ms =>
          refine ⟨reads_object (hWell.nodup .refl) fun m hMem => hParts m.2 (.member (k := m.1) hMem), fun level => ?_⟩
          rw [print_object]
          exact ⟨_, _, rfl, by decide⟩

theorem closes_nil : Closes [] := nofun

/-- The canonical text of what can be written is that of one value. -/
theorem ofText?_print (hWell : WellFormed d) (hNone : obstacle? d = none) :
    ofText? (print .canonical 0 d) = some d.sorted := by
  obtain ⟨hReads, hOpens⟩ := reads hWell hNone
  have hValue := hReads 0 (2 * (print .canonical 0 d).length + 2) [] closes_nil (by omega)
  rw [List.append_nil] at hValue
  rw [ofText?, skipGaps_of_begins (hOpens 0), hValue]
  rfl

end Reading

section Points

variable {Q : Point → Prop}

/-- The texts that a document itself holds, as its value or as names. -/
def textsOf : Document → List Text
  | .text t => [t]
  | .object ms => Members.names ms
  | _ => []

theorem printable_of_all (hQ : ∀ p : Point, p.Printable → Q p) (h : t.all (fun p => decide p.Printable) = true) :
    ∀ p ∈ t, Q p := fun p hMem => hQ p (of_decide_eq_true (List.all_eq_true.mp h p hMem))

theorem forall_mem_joined {parts : List Text} (hQ : ∀ p : Point, p.Printable → Q p)
    (h : ∀ part ∈ parts, ∀ p ∈ part, Q p) : ∀ p ∈ joined parts, Q p := by
  induction parts with
  | nil => exact nofun
  | cons part others ih =>
      obtain ⟨hPart, hOthers⟩ := List.forall_mem_cons.mp h
      by_cases hLast : others = []
      · subst hLast
        exact hPart
      · rw [joined_cons hLast]
        exact List.forall_mem_append.mpr ⟨hPart, List.forall_mem_cons.mpr
          ⟨hQ _ (by decide), ih hOthers⟩⟩

theorem forall_mem_joined_iff (hComma : Q (Point.ofChar ',')) :
    (∀ p ∈ joined parts, Q p) ↔ ∀ part ∈ parts, ∀ p ∈ part, Q p := by
  induction parts with
  | nil => exact ⟨fun _ => nofun, fun _ => nofun⟩
  | cons part others ih =>
      rw [List.forall_mem_cons, ← ih]
      by_cases hLast : others = []
      · subst hLast
        exact ⟨fun h => ⟨h, nofun⟩, And.left⟩
      · rw [joined_cons hLast, List.forall_mem_append, List.forall_mem_cons]
        exact and_congr_right fun _ => and_iff_right hComma

theorem forall_mem_string (hQ : ∀ p : Point, p.Printable → Q p) (h : ∀ p ∈ t, 0x20 ≤ p.val → Q p) :
    ∀ p ∈ string false t, Q p := by
  rw [string_eq]
  refine List.forall_mem_cons.mpr ⟨hQ _ (by decide), List.forall_mem_append.mpr ⟨fun p hMem => ?_, ?_⟩⟩
  · obtain ⟨q, hMemQ, hP⟩ := List.mem_flatMap.mp hMem
    rcases escapePoint_printable q p hP with hShown | ⟨rfl, hHigh⟩
    · exact hQ p hShown
    · exact h p hMemQ hHigh
  · exact List.forall_mem_singleton.mpr (hQ _ (by decide))

theorem clean_printMember {k u : Text} (hName : k.hasSurrogate = false) (hText : u.hasSurrogate = false)
    (level : Nat) :
    ∀ p ∈ printMember level (k, .text u), p.isSurrogate = false := by
  have hShown : ∀ p : Point, p.Printable → p.isSurrogate = false := fun p h => by
    simp only [Point.isSurrogate, Bool.and_eq_false_iff, decide_eq_false_iff_not]
    exact Or.inl (by have := h.2; omega)
  have hString : ∀ t : Text, t.hasSurrogate = false → ∀ p ∈ string false t, p.isSurrogate = false :=
    fun t h => forall_mem_string hShown fun p hMem _ => by simpa using List.any_eq_false.mp h p hMem
  exact List.forall_mem_append.mpr ⟨hString k hName, List.forall_mem_cons.mpr ⟨by decide, hString u hText⟩⟩

theorem forall_mem_numeral {n : Numeral} (hQ : ∀ p : Point, p.Printable → Q p) (h : n.WellFormed) :
    ∀ p ∈ n.text, Q p := by
  have hAll := printable_of_all hQ (t := Numeral.alphabet) (by decide)
  exact fun p hMem => hAll p (Numeral.mem_alphabet h p hMem)

theorem forall_mem_float {x : Double} (hQ : ∀ p : Point, p.Printable → Q p) (hNormal : x.Normal) :
    ∀ p ∈ float x, Q p := by
  cases x with
  | nan => exact printable_of_all hQ (by decide)
  | infinite s => cases s <;> exact printable_of_all hQ (by decide)
  | finite s m e =>
      obtain ⟨n, hForm, _, hText, _⟩ := Double.display_finite hNormal
      show ∀ p ∈ (Double.finite s m e).display, Q p
      rw [hText]
      exact forall_mem_numeral hQ hForm

/-- What is written consists of printable ASCII and of the points of the texts inside, other than
control characters. -/
theorem forall_mem_print (hWell : WellFormed d) (hNone : obstacle? d = none)
    (hQ : ∀ p : Point, p.Printable → Q p)
    (hTexts : ∀ sub, Document.Inside d sub → ∀ t ∈ textsOf sub, ∀ p ∈ t, 0x20 ≤ p.val → Q p) (level : Nat) :
    ∀ p ∈ print .canonical level d, Q p := by
  induction d using Document.induction_on generalizing level with
  | hStep d ih =>
      have hParts : ∀ part, Part d part → ∀ level, ∀ p ∈ print .canonical level part, Q p :=
        fun part hPart => ih part hPart (hWell.inside (.single hPart)) (obstacle?_part hNone hPart)
          fun sub hInside => hTexts sub (.head hPart hInside)
      cases d with
      | null =>
          show ∀ p ∈ Text.ofString "null", Q p
          exact printable_of_all hQ (by decide)
      | bool b =>
          cases b with
          | false =>
              show ∀ p ∈ Text.ofString "false", Q p
              exact printable_of_all hQ (by decide)
          | true =>
              show ∀ p ∈ Text.ofString "true", Q p
              exact printable_of_all hQ (by decide)
      | int n =>
          show ∀ p ∈ Text.ofInt n, Q p
          rw [text_wholeNumeral]
          exact forall_mem_numeral hQ (wholeNumeral_wellFormed n)
      | float x => exact forall_mem_float hQ (hWell _ .refl)
      | text t => exact forall_mem_string hQ (hTexts _ .refl t (by simp [textsOf]))
      | moment m => cases hNone
      | list items =>
          rw [print_list]
          refine List.forall_mem_cons.mpr ⟨hQ _ (by decide), List.forall_mem_append.mpr
            ⟨forall_mem_joined hQ fun part hMem => ?_, List.forall_mem_singleton.mpr (hQ _ (by decide))⟩⟩
          obtain ⟨d, hD, rfl⟩ := List.mem_map.mp hMem
          exact hParts d (.item hD) (level + 1)
      | object ms =>
          rw [print_object]
          refine List.forall_mem_cons.mpr ⟨hQ _ (by decide), List.forall_mem_append.mpr
            ⟨forall_mem_joined hQ fun part hMem => ?_, List.forall_mem_singleton.mpr (hQ _ (by decide))⟩⟩
          obtain ⟨m, hM, rfl⟩ := List.mem_map.mp hMem
          have hIn := List.mem_mergeSort.mp hM
          have hName := forall_mem_string hQ (hTexts _ .refl m.1 (List.mem_map_of_mem hIn))
          exact List.forall_mem_append.mpr ⟨hName, List.forall_mem_cons.mpr
            ⟨hQ _ (by decide), hParts m.2 (.member (k := m.1) hIn) (level + 1)⟩⟩

end Points

section Bytes

/-- Bytes that begin in ASCII and have no zeros are UTF-8. -/
theorem decode?_of_ascii {b : UInt8} {bs : Bytes} (hLow : b.toNat < 0x80) (hSome : ∀ c ∈ b :: bs, c ≠ 0) :
    decode? (b :: bs) = Bytes.text? (b :: bs) true := by
  have hFirst := hSome b List.mem_cons_self
  have hUnmarked : ∀ (m : UInt8) (mark : Bytes), (m = 0 ∨ 0x80 ≤ m.toNat) →
      afterMark? (m :: mark) (b :: bs) = none := by
    intro m mark hMark
    have hOther : m ≠ b := by
      rintro rfl
      rcases hMark with hZero | hHigh
      · exact hFirst hZero
      · omega
    simp [afterMark?, List.isPrefixOf, hOther]
  unfold decode?
  rw [hUnmarked _ _ (Or.inl rfl), hUnmarked _ _ (Or.inr (by decide)), hUnmarked _ _ (Or.inr (by decide)),
    hUnmarked _ _ (Or.inr (by decide)), hUnmarked _ _ (Or.inr (by decide))]
  dsimp only
  split
  · next a c d e rest h =>
      obtain ⟨rfl, rfl⟩ := List.cons.inj h
      have hSecond := hSome c (by simp)
      simp [hFirst, hSecond]
  · next c h =>
      obtain ⟨rfl, rfl⟩ := List.cons.inj h
      have hSecond := hSome c (by simp)
      simp [hFirst, hSecond]
  · rfl

theorem decode?_utf8 (hAscii : ∀ p ∈ t.head?, p.isAscii = true) (hVisible : ∀ p ∈ t, 0x20 ≤ p.val) : decode? t.utf8 = some t := by
  have hRead := Bytes.text?_utf8 t
  cases t with
  | nil => exact hRead
  | cons p others =>
      have hLow : p.val < 0x80 := by simpa [Point.isAscii] using hAscii p rfl
      have hBytes : Text.utf8 (p :: others) = UInt8.ofNat p.val :: Text.utf8 others := by
        rw [Text.utf8, List.flatMap_cons, Point.utf8, if_pos hLow]
        rfl
      have hSome : ∀ c ∈ Text.utf8 (p :: others), c ≠ 0 := by
        intro c hMem
        obtain ⟨q, hQ, hC⟩ := List.mem_flatMap.mp hMem
        have hHigh := hVisible q hQ
        exact Point.mem_utf8_ne_zero (by omega) c hC
      rw [hBytes] at hRead hSome ⊢
      rw [decode?_of_ascii (by rw [toNat_ofNat (by omega)]; exact hLow) hSome, hRead]

end Bytes

/-- The canonical text of a document reads back as the document with its members in order. -/
theorem read?_canonical (hWell : WellFormed d) (h : d.canonical = .ok t) :
    read? t.utf8 = some d.sorted := by
  unfold Document.canonical at h
  split at h
  · cases h
  · next hNone =>
      dsimp only at h
      split at h
      · cases h
      · obtain rfl := Except.ok.inj h
        obtain ⟨p, others, hText, hMem⟩ := (reads hWell hNone).2 0
        have hAscii : openings.all Point.isAscii = true := by decide
        have hDecode := decode?_utf8 (t := print .canonical 0 d) (fun q hQ => by
          rw [hText] at hQ
          exact List.all_eq_true.mp hAscii q (Option.some.inj hQ ▸ hMem))
          (forall_mem_print hWell hNone (fun p h => h.1) (fun _ _ _ _ _ _ h => h) 0)
        rw [read?, render, hDecode]
        exact ofText?_print hWell hNone

end Json
end Conform
