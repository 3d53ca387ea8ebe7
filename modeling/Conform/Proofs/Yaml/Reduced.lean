import Conform.Proofs.Document.Order
import Conform.Proofs.Yaml.Flushed
import Conform.Proofs.Yaml.Undated
import Mathlib

/-! What becomes of a value when it is made a document. Every shape of values has its place among the shapes of
documents, what comes out is made of those alone, and it is left as it is from then on. -/
namespace Conform

namespace Yaml.Value

variable {v whole sub : Value} {vs items members : List Value} {es : List (Value × Value)}

/-! ### Parts -/

/-- The parts of a value. The keys of mappings are none, for they have no parts themselves. -/
inductive Part : Value → Value → Prop where
  | item {items : List Value} {v : Value} (h : v ∈ items) : Part (list items) v
  | component {items : List Value} {v : Value} (h : v ∈ items) : Part (tuple items) v
  | member {members : List Value} {v : Value} (h : v ∈ members) : Part (set members) v
  | value {es : List (Value × Value)} {e : Value × Value} (h : e ∈ es) : Part (mapping es) e.2

/-- A value and what is inside it, at any depth. -/
def Inside : Value → Value → Prop := Relation.ReflTransGen Part

/-! ### Numbers without a text -/

/-- Whether the value is a whole number with more digits than are ever written. -/
def IsLong (v : Value) : Prop := ∃ n : Int, v = int n ∧ 10 ^ Text.maxDigits ≤ n.natAbs

theorem hasText_eq_false_iff : v.hasText = false ↔ v.IsLong := by
  cases v with
  | int n =>
      have hLength : (Text.ofNat n.natAbs).length ≤ Text.maxDigits ↔ n.natAbs < 10 ^ Text.maxDigits := by
        rw [← Text.length_decimals_le (by decide), Text.ofNat_eq_spell, Text.spell, List.length_map]
      rw [hasText, decide_eq_false_iff_not, hLength, Nat.not_lt]
      refine ⟨fun h => ⟨n, rfl, h⟩, ?_⟩
      rintro ⟨_, ⟨⟩, h⟩
      exact h
  | _ => exact iff_of_false (by simp [hasText]) (by rintro ⟨n, ⟨⟩, -⟩)

theorem hasText_iff : v.hasText = true ↔ ¬ v.IsLong := by
  rw [← hasText_eq_false_iff, Bool.not_eq_false]

/-- Whether a number without a text is asked for its text. -/
def AsksForText : Value → Prop
  | set members => ∃ v ∈ members, v.IsLong
  | mapping es => ∃ e ∈ es, e.1.IsLong
  | _ => False

theorem areReducible_eq (vs : List Value) : areReducible vs = vs.all isReducible := by
  induction vs with
  | nil => rfl
  | cons v rest ih => rw [areReducible, ih, List.all_cons]

theorem haveTexts_eq (es : List (Value × Value)) : haveTexts es = es.all fun e => e.1.hasText && e.2.isReducible := by
  induction es with
  | nil => rfl
  | cons e rest ih => rw [haveTexts, ih, List.all_cons]

theorem isReducible_part (h : whole.isReducible = true) (hPart : Part whole sub) : sub.isReducible = true := by
  cases hPart with
  | item hMem | component hMem =>
      rw [isReducible, areReducible_eq] at h
      exact List.all_eq_true.mp h _ hMem
  | member hMem =>
      rw [isReducible, areReducible_eq, Bool.and_eq_true] at h
      exact List.all_eq_true.mp h.1 _ hMem
  | value hMem =>
      rw [isReducible, haveTexts_eq] at h
      exact (Bool.and_eq_true _ _ ▸ List.all_eq_true.mp h _ hMem).2

theorem not_asksForText (h : v.isReducible = true) : ¬ v.AsksForText := by
  cases v with
  | set members =>
      rw [isReducible, Bool.and_eq_true] at h
      rintro ⟨v, hMem, hLong⟩
      exact hasText_iff.mp (List.all_eq_true.mp h.2 v hMem) hLong
  | mapping es =>
      rw [isReducible, haveTexts_eq] at h
      rintro ⟨e, hMem, hLong⟩
      exact hasText_iff.mp (Bool.and_eq_true _ _ ▸ List.all_eq_true.mp h e hMem).1 hLong
  | _ => exact id

mutual

theorem isReducible_of_inside (v : Value) (h : ∀ sub, Inside v sub → ¬ sub.AsksForText) : v.isReducible = true := by
  match v with
  | .list items =>
      rw [isReducible]
      exact areReducible_of_inside items fun _ hMem _ hInside => h _ (.head (.item hMem) hInside)
  | .tuple items =>
      rw [isReducible]
      exact areReducible_of_inside items fun _ hMem _ hInside => h _ (.head (.component hMem) hInside)
  | .set members =>
      rw [isReducible, Bool.and_eq_true, List.all_eq_true]
      refine ⟨areReducible_of_inside members fun _ hMem _ hInside => h _ (.head (.member hMem) hInside), ?_⟩
      exact fun v hMem => hasText_iff.mpr fun hLong => h _ .refl ⟨v, hMem, hLong⟩
  | .mapping es =>
      rw [isReducible]
      refine haveTexts_of_inside es (fun e hMem => ?_) fun _ hMem _ hInside => h _ (.head (.value hMem) hInside)
      exact hasText_iff.mpr fun hLong => h _ .refl ⟨e, hMem, hLong⟩
  | .null | .bool _ | .int _ | .float _ | .text _ | .bytes _ | .moment _ => rfl

theorem areReducible_of_inside (vs : List Value) (h : ∀ v ∈ vs, ∀ sub, Inside v sub → ¬ sub.AsksForText) :
    areReducible vs = true := by
  match vs with
  | [] => rfl
  | v :: rest =>
      obtain ⟨hFirst, hRest⟩ := List.forall_mem_cons.mp h
      rw [areReducible, isReducible_of_inside v hFirst, areReducible_of_inside rest hRest]
      rfl

theorem haveTexts_of_inside (es : List (Value × Value)) (hKeys : ∀ e ∈ es, e.1.hasText = true)
    (h : ∀ e ∈ es, ∀ sub, Inside e.2 sub → ¬ sub.AsksForText) : haveTexts es = true := by
  match es with
  | [] => rfl
  | (k, v) :: rest =>
      obtain ⟨hKey, hOthers⟩ := List.forall_mem_cons.mp hKeys
      obtain ⟨hFirst, hRest⟩ := List.forall_mem_cons.mp h
      rw [haveTexts, hKey, isReducible_of_inside v hFirst, haveTexts_of_inside rest hOthers hRest]
      rfl

end

/-- A document can be made of a value unless a number without a text is a key or a member of a set somewhere in it. -/
theorem isReducible_iff : v.isReducible = true ↔ ∀ sub, Inside v sub → ¬ sub.AsksForText := by
  refine ⟨fun h sub hInside => not_asksForText ?_, isReducible_of_inside v⟩
  induction hInside with
  | refl => exact h
  | tail _ hPart ih => exact isReducible_part ih hPart

/-! ### What stands for what -/

/-- Whether a document stands for a value. -/
inductive Reduces : Value → Document → Prop where
  | null : Reduces null .null
  | bool (b : Bool) : Reduces (bool b) (.bool b)
  | int (n : Int) : Reduces (int n) (.int n)
  | float (x : Double) : Reduces (float x) (.float x)
  | text (t : Text) : Reduces (text t) (.text t)
  | moment (m : Moment) : Reduces (moment m) (.moment m)
  | bytes (bs : Bytes) : Reduces (bytes bs) (.text bs.textLossy)
  | list {items : List Value} {ds : List Document} (h : List.Forall₂ Reduces items ds) : Reduces (list items) (.list ds)
  | tuple {items : List Value} {ds : List Document} (h : List.Forall₂ Reduces items ds) : Reduces (tuple items) (.list ds)
  /-- The members of a set come in the order of what messages show of them. -/
  | set {members : List Value} {ds sorted : List Document} (h : List.Forall₂ Reduces members ds) (hSame : sorted.Perm ds)
      (hOrder : sorted.Pairwise fun a b => Text.le a.display b.display = true) : Reduces (set members) (.list sorted)
  /-- Of entries with one text for their keys there is one member, for the last of them. -/
  | mapping {es : List (Value × Value)} {all ms : Members} (h : List.Forall₂ (fun e m => Reduces e.2 m.2) es all)
      (hKeys : Members.names all = es.map (·.1.plain)) (hDistinct : (Members.names ms).Nodup)
      (hLast : ∀ name, Members.get? ms name = (all.reverse.find? (·.1 == name)).map (·.2)) : Reduces (mapping es) (.object ms)

mutual

theorem reduces_toDocument (v : Value) : Reduces v v.toDocument := by
  match v with
  | .null => exact .null
  | .bool b => exact .bool b
  | .int n => exact .int n
  | .float x => exact .float x
  | .text t => exact .text t
  | .bytes bs => exact .bytes bs
  | .moment m => exact .moment m
  | .list items => exact .list (reduces_toDocuments items)
  | .tuple items => exact .tuple (reduces_toDocuments items)
  | .set members =>
      exact .set (reduces_toDocuments members) (List.mergeSort_perm _ _)
        (Text.pairwise_mergeSort Document.display _)
  | .mapping es =>
      refine .mapping (reduces_toMembers es) ?_ (Members.nodup_ofList _) (get?_members _)
      rw [toMembers_eq, Members.names, List.map_map]
      rfl

theorem reduces_toDocuments (vs : List Value) : List.Forall₂ Reduces vs (toDocuments vs) := by
  match vs with
  | [] => exact .nil
  | v :: rest => exact .cons (reduces_toDocument v) (reduces_toDocuments rest)

theorem reduces_toMembers (es : List (Value × Value)) :
    List.Forall₂ (fun e m => Reduces e.2 m.2) es (toMembers es) := by
  match es with
  | [] => exact .nil
  | (_, v) :: rest => exact .cons (reduces_toDocument v) (reduces_toMembers rest)

end

/-! ### Values of documents -/

open ofDocument (ofDocuments ofMembers)

theorem ofMembers_eq (ms : Members) : ofMembers ms = ms.map fun m => (text m.1, ofDocument m.2) := by
  induction ms with
  | nil => rfl
  | cons m rest ih => rw [ofMembers, ih, List.map_cons]

/-- Whether a value has a shape that documents have: it is no bytes, no tuple and no set, and keys are texts that
differ. -/
def IsJson : Value → Prop
  | bytes _ | tuple _ | set _ => False
  | mapping es => ∃ names : List Text, names.Nodup ∧ es.map (·.1) = names.map text
  | _ => True

mutual

theorem isJson_ofDocument (d : Document) (h : d.WellFormed) (sub : Value) (hInside : Inside (ofDocument d) sub) :
    sub.IsJson := by
  match d with
  | .list items =>
      rcases Relation.ReflTransGen.cases_head hInside with rfl | ⟨v, hPart, hSub⟩
      · trivial
      · cases hPart with
        | item hMem => exact isJson_ofDocuments items (Document.wellFormed_list.mp h) v hMem sub hSub
  | .object ms =>
      obtain ⟨hNodup, hValues⟩ := Document.wellFormed_object.mp h
      rcases Relation.ReflTransGen.cases_head hInside with rfl | ⟨v, hPart, hSub⟩
      · refine ⟨Members.names ms, hNodup, ?_⟩
        rw [ofMembers_eq, Members.names, List.map_map, List.map_map]
        rfl
      · cases hPart with
        | value hMem => exact isJson_ofMembers ms hValues _ hMem sub hSub
  | .null | .bool _ | .int _ | .float _ | .text _ | .moment _ =>
      rcases Relation.ReflTransGen.cases_head hInside with rfl | ⟨v, ⟨⟩, -⟩
      trivial

theorem isJson_ofDocuments (ds : List Document) (h : ∀ d ∈ ds, d.WellFormed) (v : Value) (hMem : v ∈ ofDocuments ds)
    (sub : Value) (hInside : Inside v sub) : sub.IsJson := by
  match ds with
  | [] => cases hMem
  | d :: rest =>
      obtain ⟨hFirst, hRest⟩ := List.forall_mem_cons.mp h
      rcases List.mem_cons.mp hMem with rfl | hMem
      · exact isJson_ofDocument d hFirst sub hInside
      · exact isJson_ofDocuments rest hRest v hMem sub hInside

theorem isJson_ofMembers (ms : Members) (h : ∀ m ∈ ms, m.2.WellFormed) (e : Value × Value) (hMem : e ∈ ofMembers ms)
    (sub : Value) (hInside : Inside e.2 sub) : sub.IsJson := by
  match ms with
  | [] => cases hMem
  | (_, d) :: rest =>
      obtain ⟨hFirst, hRest⟩ := List.forall_mem_cons.mp h
      rcases List.mem_cons.mp hMem with rfl | hMem
      · exact isJson_ofDocument d hFirst sub hInside
      · exact isJson_ofMembers rest hRest e hMem sub hInside

end

/-- What has only the shapes of documents needs no text of a number. -/
theorem isReducible_of_isJson (h : ∀ sub, Inside v sub → sub.IsJson) : v.isReducible = true := by
  refine isReducible_iff.mpr fun sub hInside hAsks => ?_
  have hJson := h sub hInside
  cases sub with
  | set => exact hJson
  | mapping es =>
      obtain ⟨names, -, hKeys⟩ := hJson
      obtain ⟨e, hMem, n, hLong, -⟩ := hAsks
      obtain ⟨t, -, hText⟩ := List.mem_map.mp (hKeys ▸ List.mem_map_of_mem hMem)
      cases hText.trans hLong
  | _ => exact hAsks

mutual

/-- The value of a document is left as it is. -/
theorem toDocument_ofDocument (d : Document) (h : d.WellFormed) : (ofDocument d).toDocument = d := by
  match d with
  | .list items => rw [ofDocument, toDocument, toDocuments_ofDocuments items (Document.wellFormed_list.mp h)]
  | .object ms =>
      obtain ⟨hNodup, hValues⟩ := Document.wellFormed_object.mp h
      rw [ofDocument, toDocument, toMembers_ofMembers ms hValues, Members.ofList_of_nodup hNodup]
  | .null | .bool _ | .int _ | .float _ | .text _ | .moment _ => rfl

theorem toDocuments_ofDocuments (ds : List Document) (h : ∀ d ∈ ds, d.WellFormed) : toDocuments (ofDocuments ds) = ds := by
  match ds with
  | [] => rfl
  | d :: rest =>
      obtain ⟨hFirst, hRest⟩ := List.forall_mem_cons.mp h
      rw [ofDocuments, toDocuments, toDocument_ofDocument d hFirst, toDocuments_ofDocuments rest hRest]

theorem toMembers_ofMembers (ms : Members) (h : ∀ m ∈ ms, m.2.WellFormed) : toMembers (ofMembers ms) = ms := by
  match ms with
  | [] => rfl
  | (k, d) :: rest =>
      obtain ⟨hFirst, hRest⟩ := List.forall_mem_cons.mp h
      rw [ofMembers, toMembers, toDocument_ofDocument d hFirst, toMembers_ofMembers rest hRest]
      rfl

end

/-- Whether a document is what a value is reduced to, and reducing it changes nothing. -/
structure IsReduced (v : Value) (d : Document) : Prop where
  stands : Reduces v d
  closed : ∀ sub, Inside (ofDocument d) sub → sub.IsJson
  reducible : (ofDocument d).isReducible = true
  idempotent : (ofDocument d).toDocument = d

theorem isReduced_toDocument (h : v.toDocument.WellFormed) : IsReduced v v.toDocument where
  stands := reduces_toDocument v
  closed := isJson_ofDocument _ h
  reducible := isReducible_of_isJson (isJson_ofDocument _ h)
  idempotent := toDocument_ofDocument _ h

/-- Of what is loaded a document is made, unless a number without a text is asked for its text somewhere. -/
theorem read?_cases {bs : Bytes} (h : load false bs = .ok v) :
    ((∀ sub, Inside v sub → ¬ sub.AsksForText) ∧ Document.read? bs = .ok (some (v.toDocument, .yaml))) ∨
      ((∃ sub, Inside v sub ∧ sub.AsksForText) ∧ Document.read? bs = .error (.scalar .longNumber)) := by
  by_cases hReducible : v.isReducible = true
  · have hRead : read false bs = .ok v := read_false_ok_iff.mpr ⟨h, hReducible⟩
    exact .inl ⟨isReducible_iff.mp hReducible, by rw [Document.read?, hRead]⟩
  · have hRead : read false bs = .error .longNumber := by
      rw [read, h]
      exact if_neg hReducible
    refine .inr ⟨?_, by rw [Document.read?, hRead]⟩
    by_contra hNone
    exact hReducible (isReducible_iff.mpr fun sub hInside hAsks => hNone ⟨sub, hInside, hAsks⟩)

/-- A stream with values of shapes that documents have not. -/
def shapes : Bytes := Text.utf8 "1: [!!binary YQ==, !!pairs [x: null]]\n"

end Yaml.Value

/-! ### A key that is too long -/

namespace Yaml

section Words

variable {c d : Char} {w rest : List Char}

theorem beq_of_isAlphanum (h : c.isAlphanum = true) (hOther : d.isAlphanum = false) : (c == d) = false := by
  refine beq_eq_false_iff_ne.mpr ?_
  rintro rfl
  exact Bool.false_ne_true (hOther.symm.trans h)

theorem Cursor.step_of_isAlphanum (h : c.isAlphanum = true) (index line column : Nat) :
    step ⟨c :: rest, index, line, column⟩ = ⟨rest, index + 1, line, column + 1⟩ := by
  have hMarks : ∀ d ∈ ['\n', '\x85', '\u2028', '\u2029', '\r', '\ufeff'], d.isAlphanum = false :=
    List.all_iff_forall_prop.mp (by decide)
  have hOther := fun d hMem => beq_of_isAlphanum h (hMarks d hMem)
  simp only [List.forall_mem_cons] at hOther
  simp [step, hOther]

/-- Passing letters and digits. -/
theorem Cursor.forward_word (hWord : ∀ c ∈ w, c.isAlphanum = true) (index line column : Nat) :
    forward w.length ⟨w ++ rest, index, line, column⟩ = ⟨rest, index + w.length, line, column + w.length⟩ := by
  induction w generalizing index column with
  | nil => rfl
  | cons c others ih =>
      obtain ⟨hFirst, hOthers⟩ := List.forall_mem_cons.mp hWord
      rw [List.length_cons, List.cons_append, forward, step_of_isAlphanum hFirst, ih hOthers, Nat.add_assoc,
        Nat.add_assoc, Nat.add_comm 1]

namespace Token

theorem plainStops_of_isAlphanum (h : c.isAlphanum = true) (next : Char) : plainStops false c next = false := by
  have hMarks : ∀ d ∈ ['\n', '\x85', '\u2028', '\u2029', '\r', '\t', ' ', '\x00', ':'], d.isAlphanum = false :=
    List.all_iff_forall_prop.mp (by decide)
  have hOther := fun d hMem => beq_of_isAlphanum h (hMarks d hMem)
  simp only [List.forall_mem_cons] at hOther
  simp [plainStops, Cursor.isSpace, Cursor.isGap, Cursor.isBreakOrEnd, Cursor.isBreak, Cursor.isEnd, hOther]

theorem plainSpan_word (hWord : ∀ c ∈ w, c.isAlphanum = true) (rest : List Char) :
    plainSpan false (w ++ '\n' :: rest) = w := by
  induction w with
  | nil => rfl
  | cons c others ih =>
      obtain ⟨hFirst, hOthers⟩ := List.forall_mem_cons.mp hWord
      rw [List.cons_append, plainSpan, plainStops_of_isAlphanum hFirst, if_neg Bool.false_ne_true, ih hOthers]

namespace State

/-- A key that is marked and has a line of its own, with a value. -/
def keyed (w : List Char) : List Char := '?' :: ' ' :: (w ++ ['\n', ':', ' ', '1', '\n'])

/-- The state where the key begins. -/
def atWord (w : List Char) : State where
  cursor := ⟨w ++ ['\n', ':', ' ', '1', '\n'], 2, 0, 2⟩
  tokens := #[.blockMapping, .key]
  flow := 0
  indent := 0
  indents := [-1]
  candidates := []
  keyAllowed := true

/-- The state after the mark of the key. -/
def afterMark (w : List Char) : State := { atWord w with cursor := ⟨(keyed w).tail, 1, 0, 1⟩ }

/-- The state after the key. -/
def afterWord (w : List Char) : State :=
  { atWord w with
    cursor := ⟨[':', ' ', '1', '\n'], 2 + w.length + 1, 1, 0⟩
    tokens := #[.blockMapping, .key, .scalar (Text.ofChars w) true]
    candidates := [(0, ⟨2, false, 2, 0, 2⟩)] }

theorem next_start (w : List Char) : (start (keyed w)).next = .ok (afterMark w) := by
  have hAt : (start (keyed w)).toNextToken = start (keyed w) := rfl
  have hFresh : (start (keyed w)).dropStale = .ok (start (keyed w)) := rfl
  have hColumn : (start (keyed w)).cursor.column = 0 := rfl
  have hDeep : (start (keyed w)).unwind 0 = start (keyed w) := rfl
  have hSome : (start (keyed w)).cursor.rest.isEmpty = false := rfl
  have hPeek : (start (keyed w)).cursor.peek = '?' := rfl
  have hMarks : (start (keyed w)).cursor.atSeparator = false := rfl
  have hSpaced : Cursor.isSpace ((start (keyed w)).cursor.peekAt 1) = true := rfl
  have hKey : (start (keyed w)).keyToken = .ok (afterMark w) := rfl
  simp [next, bind, Except.bind, hAt, hFresh, hColumn, hDeep, hSome, hPeek, hMarks, hSpaced, hKey]

theorem next_afterMark (w : List Char) : (afterMark ('0' :: w)).next = (atWord ('0' :: w)).plainToken := by
  have hAt : (afterMark ('0' :: w)).toNextToken = atWord ('0' :: w) := rfl
  have hFresh : (atWord ('0' :: w)).dropStale = .ok (atWord ('0' :: w)) := rfl
  have hColumn : (atWord ('0' :: w)).cursor.column = 2 := rfl
  have hDeep : (atWord ('0' :: w)).unwind 2 = atWord ('0' :: w) := rfl
  have hSome : (atWord ('0' :: w)).cursor.rest.isEmpty = false := rfl
  have hPeek : (atWord ('0' :: w)).cursor.peek = '0' := rfl
  have hFlow : (atWord ('0' :: w)).flow = 0 := rfl
  have hPlain : (atWord ('0' :: w)).atPlain = true := rfl
  simp [next, bind, Except.bind, hAt, hFresh, hColumn, hDeep, hSome, hPeek, hFlow, hPlain]

theorem plainToken_word (hWord : ∀ c ∈ '0' :: w, c.isAlphanum = true) :
    (atWord ('0' :: w)).plainToken = .ok (afterWord ('0' :: w)) := by
  have hSpan : plainSpan false (atWord ('0' :: w)).cursor.rest = '0' :: w := plainSpan_word hWord _
  have hForward : (atWord ('0' :: w)).cursor.forward ('0' :: w).length = _ := Cursor.forward_word hWord 2 0 2
  have hPlain : plain false 0 ((atWord ('0' :: w)).cursor.rest.length + 1) (atWord ('0' :: w)).cursor false [] [] =
      ('0' :: w, (afterWord ('0' :: w)).cursor, true) := by
    rw [plain, show ((atWord ('0' :: w)).cursor.peek == '#') = false from rfl, if_neg Bool.false_ne_true, hSpan]
    dsimp only
    rw [hForward]
    rfl
  have hNote : (atWord ('0' :: w)).noteCandidate =
      .ok { atWord ('0' :: w) with candidates := [(0, ⟨2, false, 2, 0, 2⟩)] } := rfl
  have hFlow : ((atWord ('0' :: w)).flow != 0) = false := rfl
  have hIndent : (atWord ('0' :: w)).indent = 0 := rfl
  simp only [plainToken, hNote, bind, Except.bind, hFlow, hIndent, hPlain]
  rfl

theorem run_of_next {s s' : State} (h : s.next = .ok s') (hOpen : (s'.tokens.back? == some .streamEnd) = false)
    (fuel : Nat) : run (fuel + 1) s = run fuel s' := by
  rw [run_succ, h]
  exact if_neg (Bool.eq_false_iff.mp hOpen)

theorem scan_keyed (hWord : ∀ c ∈ '0' :: w, c.isAlphanum = true) :
    scan (keyed ('0' :: w)) = run (w.length + 8) (afterWord ('0' :: w)) := by
  have hLength : (keyed ('0' :: w)).length + 2 = w.length + 8 + 1 + 1 := by simp [keyed]
  rw [scan, hLength, run_of_next (next_start _) rfl, run_of_next ((next_afterMark w).trans (plainToken_word hWord)) rfl]

end State
end Token
end Words

namespace Value

/-- A number in base sixteen with more than four thousand and three hundred digits in base ten. -/
def longWord : List Char := '0' :: 'x' :: '1' :: List.replicate 3572 '0'

/-- A stream with such a number for a key. -/
def longKey : Bytes := Text.utf8 (Text.ofChars (Token.State.keyed longWord))

end Value
end Yaml
end Conform
