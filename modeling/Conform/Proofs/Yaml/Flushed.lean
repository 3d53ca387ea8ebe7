import Conform.Proofs.Lookup
import Conform.Proofs.Text.Encoding
import Conform.Yaml.Value

/-! Tokens that are given out early. Of the tokens read so far the scanner sees again only those from its oldest
candidate for a key on, so a run may give out its tokens whenever there is no candidate, and go on without them. -/
namespace Conform.Yaml.Token

/-- A candidate after some more tokens. -/
def Candidate.after (count : Nat) (k : Candidate) : Candidate := { k with token := count + k.token }

namespace State

variable {before : Array Token} {s : State}

/-- A state with more tokens before its own. -/
def after (before : Array Token) (s : State) : State :=
  { s with
    tokens := before ++ s.tokens
    candidates := s.candidates.map fun k => (k.1, k.2.after before.size) }

/-! ### What a step makes of the tokens before -/

@[simp] theorem cursor_after : (s.after before).cursor = s.cursor := rfl

@[simp] theorem flow_after : (s.after before).flow = s.flow := rfl

@[simp] theorem indent_after : (s.after before).indent = s.indent := rfl

@[simp] theorem indents_after : (s.after before).indents = s.indents := rfl

@[simp] theorem keyAllowed_after : (s.after before).keyAllowed = s.keyAllowed := rfl

theorem push_after (t : Token) : (s.after before).push t = (s.push t).after before := by
  simp [after, push]

theorem take_after (n : Nat) (t : Token) : (s.after before).take n t = (s.take n t).after before := by
  simp [after, take]

theorem insertIdx_append (xs ys : List Token) (n : Nat) (t : Token) :
    (xs ++ ys).insertIdx (xs.length + n) t = xs ++ ys.insertIdx n t := by
  induction xs with
  | nil => simp
  | cons x rest ih =>
      rw [List.length_cons, Nat.add_right_comm, List.cons_append, List.insertIdx_succ_cons, ih]
      rfl

theorem insert_after (n : Nat) (t : Token) :
    (s.after before).insert (before.size + n) t = (s.insert n t).after before := by
  have hTokens : (before ++ s.tokens).insertIdxIfInBounds (before.size + n) t =
      before ++ s.tokens.insertIdxIfInBounds n t := by
    obtain ⟨xs⟩ := before
    obtain ⟨ys⟩ := s.tokens
    simpa using insertIdx_append xs ys n t
  simp only [after, insert, hTokens]

theorem pure_after {s' : State} (h : s' = s.after before) :
    (pure s' : Scan State) = (pure s : Scan State).map (after before) :=
  congrArg Except.ok h

theorem bind_after {x x' : Scan State} {f f' : State → Scan State} (hFirst : x' = x.map (after before))
    (hRest : ∀ s, f' (s.after before) = (f s).map (after before)) : (x' >>= f') = (x >>= f).map (after before) := by
  rw [hFirst]
  cases x with
  | error e => rfl
  | ok s => exact hRest s

theorem bind_pure_after {α : Type} (x : Scan α) {f f' : α → Scan State} (hRest : ∀ a, f' a = (f a).map (after before)) :
    (x >>= f') = (x >>= f).map (after before) := by
  cases x with
  | error e => rfl
  | ok a => exact hRest a

theorem ite_after {p : Prop} [Decidable p] {x x' y y' : Scan State} (hThen : x' = x.map (after before))
    (hElse : y' = y.map (after before)) : (if p then x' else y') = (if p then x else y).map (after before) := by
  split
  · exact hThen
  · exact hElse

theorem filter_after (before : Array Token) (s : State) (p : Nat × Candidate → Bool)
    (hSame : ∀ k, p (k.1, k.2.after before.size) = p k) :
    { s.after before with candidates := (s.after before).candidates.filter p } =
      { s with candidates := s.candidates.filter p }.after before := by
  simp [after, List.filter_map, Function.comp_def, hSame]

theorem lookup_after (depth : Nat) : (s.after before).candidates.lookup depth =
    (s.candidates.lookup depth).map (Candidate.after before.size) :=
  lookup_map _ _ _

theorem dropStale_after : (s.after before).dropStale = s.dropStale.map (after before) := by
  let stale (k : Candidate) := k.line != s.cursor.line || k.index + 1024 < s.cursor.index
  have hAny : ((s.after before).candidates.any fun k => stale k.2 && k.2.required) =
      s.candidates.any fun k => stale k.2 && k.2.required := by
    simp [after, Candidate.after, stale, List.any_map, Function.comp_def]
  have hFilter := filter_after before s (fun k => !stale k.2) fun k => rfl
  have hSame : (s.after before).dropStale =
      if s.candidates.any fun k => stale k.2 && k.2.required then .error .malformed
      else .ok { s.after before with candidates := (s.after before).candidates.filter fun k => !stale k.2 } := by
    rw [← hAny]
    rfl
  rw [hSame]
  exact ite_after rfl (congrArg Except.ok hFilter)

theorem dropCandidate_after : (s.after before).dropCandidate = s.dropCandidate.map (after before) := by
  rw [dropCandidate, dropCandidate, flow_after, lookup_after]
  cases s.candidates.lookup s.flow with
  | none => rfl
  | some k =>
      dsimp only [Option.map_some, Candidate.after]
      split
      · rfl
      · exact congrArg Except.ok (filter_after _ _ _ fun k => rfl)

theorem noteCandidate_after : (s.after before).noteCandidate = s.noteCandidate.map (after before) := by
  rw [noteCandidate, noteCandidate, keyAllowed_after]
  refine ite_after (bind_after dropCandidate_after fun s => pure_after ?_) rfl
  simp [after, Candidate.after]

theorem go_after (column : Int) (indents : List Int) (s : State) :
    unwind.go column indents (s.after before) = (unwind.go column indents s).after before := by
  induction indents generalizing s with
  | nil => rfl
  | cons i rest ih =>
      rw [unwind.go, unwind.go, indent_after]
      split
      · rw [← ih]
        simp [after]
      · rfl

theorem unwind_after (column : Int) : (s.after before).unwind column = (s.unwind column).after before := by
  rw [unwind, unwind, flow_after]
  split
  · rfl
  · exact go_after column s.indents s

theorem addIndent_after (column : Int) :
    (s.after before).addIndent column = (s.addIndent column).map id (after before) := by
  rw [addIndent, addIndent, indent_after]
  split <;> rfl

theorem skipGaps_after (fuel : Nat) (s : State) : skipGaps fuel (s.after before) = (skipGaps fuel s).after before := by
  induction fuel generalizing s with
  | zero => rfl
  | succ fuel ih =>
      rw [skipGaps, skipGaps, cursor_after]
      generalize (if s.cursor.skipSpaces.peek == '#' then _ else s.cursor.skipSpaces) = c
      rcases c.lineBreak with ⟨_ | _, c'⟩
      · rfl
      · exact ih { s with cursor := c', keyAllowed := s.keyAllowed || s.flow == 0 }

theorem toNextToken_after : (s.after before).toNextToken = s.toNextToken.after before := by
  cases hMark : s.cursor.index == 0 && s.cursor.peek == '\ufeff' with
  | true =>
      simp only [toNextToken, cursor_after, hMark, if_true]
      exact skipGaps_after _ { s with cursor := s.cursor.step }
  | false =>
      simp only [toNextToken, cursor_after, hMark, Bool.false_eq_true, if_false]
      exact skipGaps_after _ s

/-! ### What a token makes of the tokens before -/

theorem node_after (r : Scan (Token × Cursor)) : (s.after before).node r = (s.node r).map (after before) :=
  bind_after noteCandidate_after fun s => bind_pure_after r fun e => pure_after (by simp [after])

theorem endStream_after : (s.after before).endStream = s.endStream.map (after before) := by
  rw [endStream, unwind_after]
  exact bind_after dropCandidate_after fun s => pure_after (push_after .streamEnd)

theorem flowStart_after (t : Token) : (s.after before).flowStart t = (s.flowStart t).map (after before) :=
  bind_after noteCandidate_after fun s => pure_after (by simp [after, take])

theorem flowEnd_after (t : Token) : (s.after before).flowEnd t = (s.flowEnd t).map (after before) :=
  bind_pure_after _ fun _ => bind_after dropCandidate_after fun s => pure_after (by simp [after, take])

theorem openBlock_after (t : Token) : (s.after before).openBlock t = (s.openBlock t).map (after before) := by
  rw [openBlock, openBlock]
  refine ite_after rfl (bind_pure_after _ fun _ => ?_)
  rw [cursor_after, addIndent_after]
  rcases s.addIndent s.cursor.column with ⟨_ | _, s⟩
  · exact pure_after rfl
  · exact pure_after (push_after t)

theorem entryToken_after : (s.after before).entryToken = s.entryToken.map (after before) :=
  bind_after (openBlock_after _) fun s =>
    bind_after (dropCandidate_after (s := { s with keyAllowed := true })) fun _ => pure_after (take_after 1 .entry)

theorem keyToken_after : (s.after before).keyToken = s.keyToken.map (after before) :=
  bind_after (openBlock_after _) fun s =>
    bind_after (dropCandidate_after (s := { s with keyAllowed := s.flow == 0 })) fun _ => pure_after (take_after 1 .key)

theorem valueToken_after : (s.after before).valueToken = s.valueToken.map (after before) := by
  rw [valueToken, valueToken, lookup_after, flow_after]
  cases s.candidates.lookup s.flow with
  | some k =>
      have hFilter := filter_after before s (·.1 != s.flow) fun k => rfl
      dsimp only [Option.map_some, Candidate.after, flow_after, keyAllowed_after, cursor_after, indent_after,
        indents_after] at hFilter ⊢
      rw [hFilter, insert_after]
      generalize insert _ _ _ = s
      have hOpened : (if s.flow == 0 then (s.after before).addIndent k.column else (false, s.after before)) =
          (if s.flow == 0 then s.addIndent k.column else (false, s)).map id (after before) := by
        split
        · exact addIndent_after k.column
        · rfl
      rw [flow_after, hOpened]
      rcases (if s.flow == 0 then s.addIndent k.column else (false, s)) with ⟨_ | _, s⟩
      · exact congrArg Except.ok (take_after (s := { s with keyAllowed := false }) 1 .value)
      · dsimp only [Prod.map, if_true]
        rw [insert_after]
        exact congrArg Except.ok (take_after (s := { s.insert k.token .blockMapping with keyAllowed := false }) 1 .value)
  | none =>
      exact bind_after (openBlock_after _) fun s =>
        bind_after (dropCandidate_after (s := { s with keyAllowed := s.flow == 0 })) fun _ =>
          pure_after (take_after 1 .value)

theorem plainToken_after : (s.after before).plainToken = s.plainToken.map (after before) := by
  refine bind_after noteCandidate_after fun s => ?_
  rw [cursor_after, flow_after, indent_after]
  rcases plain (s.flow != 0) s.indent (s.cursor.rest.length + 1) s.cursor false [] [] with ⟨t, c, allowed⟩
  exact pure_after (by simp [after])

theorem next_after : (s.after before).next = s.next.map (after before) := by
  rw [next, next, toNextToken_after]
  refine bind_after dropStale_after fun s => ?_
  rw [cursor_after, unwind_after]
  dsimp only
  generalize s.unwind s.cursor.column = s
  refine ite_after endStream_after ?_
  refine ite_after ?_ ?_
  · rw [unwind_after]
    refine bind_after dropCandidate_after fun s => bind_pure_after _ fun e => pure_after (by simp [after])
  refine ite_after ?_ ?_
  · rw [unwind_after]
    refine bind_after dropCandidate_after fun s => pure_after (by simp [after, take])
  refine ite_after (flowStart_after _) ?_
  refine ite_after (flowStart_after _) ?_
  refine ite_after (flowEnd_after _) ?_
  refine ite_after (flowEnd_after _) ?_
  refine ite_after ?_ ?_
  · exact bind_after (dropCandidate_after (s := { s with keyAllowed := true })) fun _ => pure_after (take_after 1 .comma)
  refine ite_after entryToken_after ?_
  refine ite_after keyToken_after ?_
  refine ite_after valueToken_after ?_
  refine ite_after (node_after _) ?_
  refine ite_after (node_after _) ?_
  refine ite_after (node_after _) ?_
  refine ite_after ?_ ?_
  · refine bind_after (dropCandidate_after (s := { s with keyAllowed := true })) fun s => ?_
    exact bind_pure_after _ fun e => pure_after (by simp [after])
  refine ite_after (node_after _) ?_
  exact ite_after plainToken_after rfl

/-! ### Runs -/

-- A step is not looked into any more: what is said of runs follows from `next_after`.
attribute [local irreducible] next

theorem run_succ (fuel : Nat) (s : State) : run (fuel + 1) s =
    match s.next with
    | .error f => (s.tokens.push (.fault f)).toList
    | .ok s => if s.tokens.back? == some .streamEnd then s.tokens.toList else run fuel s := by
  with_unfolding_all rfl

theorem run_after (hOpen : before.back? ≠ some .streamEnd) (fuel : Nat) (s : State) :
    run fuel (s.after before) = before.toList ++ run fuel s := by
  have hList (s : State) : (s.after before).tokens.toList = before.toList ++ s.tokens.toList := Array.toList_append
  induction fuel generalizing s with
  | zero => exact hList s
  | succ fuel ih =>
      rw [run_succ, run_succ, next_after]
      cases s.next with
      | error e => simp [Except.map, after]
      | ok s =>
          have hLast : ((s.after before).tokens.back? == some Token.streamEnd) = (s.tokens.back? == some .streamEnd) := by
            have hBack : (s.after before).tokens.back? = s.tokens.back?.or before.back? := Array.back?_append
            rw [hBack]
            cases s.tokens.back? with
            | none => simpa using hOpen
            | some t => rfl
          simp only [Except.map, hLast]
          split
          · exact hList s
          · exact ih s

/-- A run that gives out its tokens whenever there is no candidate. -/
def pieces : Nat → State → List Token
  | 0, s => s.tokens.toList
  | fuel + 1, s =>
    match s.next with
    | .error f => (s.tokens.push (.fault f)).toList
    | .ok s =>
      if s.tokens.back? == some .streamEnd then s.tokens.toList
      else if s.candidates.isEmpty then s.tokens.toList ++ pieces fuel { s with tokens := #[] }
      else pieces fuel s

theorem run_eq_pieces (fuel : Nat) (s : State) : run fuel s = pieces fuel s := by
  induction fuel generalizing s with
  | zero => rfl
  | succ fuel ih =>
      rw [run_succ, pieces]
      cases s.next with
      | error e => rfl
      | ok s =>
          dsimp only
          split
          · rfl
          · next hOpen =>
              split
              · next hNone =>
                  have hAfter : s = ({ s with tokens := #[] } : State).after s.tokens := by
                    obtain ⟨cursor, tokens, flow, indent, indents, candidates, keyAllowed⟩ := s
                    obtain rfl : candidates = [] := List.isEmpty_iff.mp hNone
                    simp [after]
                  calc run fuel s
                    _ = run fuel (({ s with tokens := #[] } : State).after s.tokens) := congrArg (run fuel) hAfter
                    _ = s.tokens.toList ++ run fuel { s with tokens := #[] } := run_after (by simpa using hOpen) fuel _
                    _ = s.tokens.toList ++ pieces fuel { s with tokens := #[] } := congrArg _ (ih _)
              · exact ih s

end State

/-- The tokens of a stream, given out early. -/
def pieces (cs : List Char) : List Token := State.pieces (cs.length + 2) (State.start cs)

theorem scan_eq_pieces (cs : List Char) : scan cs = pieces cs := State.run_eq_pieces _ _

end Token

namespace Value

/-- A text in ASCII is read back from its bytes as a stream. -/
theorem streamText?_utf8 {t : Text} (h : t.isAscii = true) : streamText? t.utf8 = some t := by
  have hText := Bytes.text?_of_isAscii h false
  rw [Text.utf8_of_isAscii h] at hText ⊢
  cases t with
  | nil => rfl
  | cons p rest =>
      have hPoint : p.val < 0x80 := (Text.isAscii_cons.mp h).1
      have hFirst : (UInt8.ofNat p.val).toNat = p.val := toNat_ofNat (by omega)
      rw [List.map_cons] at hText ⊢
      unfold streamText?
      split
      · next hMark =>
          rw [(List.cons.inj hMark).1] at hFirst
          exact absurd hFirst (by rw [show (0xFF : UInt8).toNat = 0xFF from rfl]; omega)
      · next hMark =>
          rw [(List.cons.inj hMark).1] at hFirst
          exact absurd hFirst (by rw [show (0xFE : UInt8).toNat = 0xFE from rfl]; omega)
      · exact hText

/-- The value of a stream, its tokens given out early. -/
def ofPieces (dates : Bool) (cs : List Char) : Except Fault Value := do
  match ← Node.ofTokens? dates (Token.pieces cs) with
  | none => return null
  | some n => (ofNode 0 n).mapError (·.2)

theorem ofChars_eq_ofPieces (dates : Bool) (cs : List Char) : ofChars dates cs = ofPieces dates cs := by
  rw [ofChars, Token.scan_eq_pieces]
  rfl

/-- What is read of a stream, its tokens given out early. -/
def readPieces (dates : Bool) (cs : List Char) : Except Fault Value := do
  let v ← ofPieces dates cs
  if dates || v.isReducible then return v
  throw .longNumber

/-- Loading a text in ASCII from its bytes. -/
theorem load_utf8 {t : Text} (h : t.isAscii = true) (hVisible : t.all isStreamChar = true) (dates : Bool) :
    load dates t.utf8 = ofChars dates t.chars := by
  rw [load, streamText?_utf8 h]
  exact if_pos hVisible

/-- Reading a text in ASCII from its bytes. -/
theorem read_utf8 {t : Text} (h : t.isAscii = true) (hVisible : t.all isStreamChar = true) (dates : Bool) :
    read dates t.utf8 = readPieces dates t.chars := by
  rw [read, load_utf8 h hVisible, ofChars_eq_ofPieces]
  rfl

end Value
end Conform.Yaml
