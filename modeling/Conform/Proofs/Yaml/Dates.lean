import Conform.Proofs.Except
import Conform.Yaml.Value

/-! What recognising dates comes to. A stream read with dates and one read without them differ in the plain scalars
that have the form of a date, and in nothing else. -/
namespace Conform.Yaml

namespace Scalar

variable {t : Text}

/-- Whether a text has the form of a date. -/
def IsDate (t : Text) : Prop := implicitTag true t = .timestamp

instance (t : Text) : Decidable (IsDate t) := inferInstanceAs (Decidable (_ = _))

theorem implicitTag_of_isDate (h : IsDate t) : implicitTag false t = .str := by
  unfold IsDate implicitTag at h
  unfold implicitTag
  dsimp only at h ⊢
  generalize (if t.endsWith "\n" then t.dropLast else t) = u at h ⊢
  by_cases hDefault : (u == "=") = true
  · rw [beq_iff_eq.mp hDefault] at h
    exact absurd h (by decide)
  · simp only [Bool.true_and, Bool.false_and, Bool.false_eq_true, if_false, if_neg hDefault] at h ⊢
    split_ifs at h ⊢
    · rfl

theorem implicitTag_of_not_isDate (h : ¬ IsDate t) : implicitTag false t = implicitTag true t := by
  unfold IsDate implicitTag at h
  unfold implicitTag
  dsimp only at h ⊢
  generalize (if t.endsWith "\n" then t.dropLast else t) = u at h ⊢
  simp only [Bool.true_and, Bool.false_and, Bool.false_eq_true, if_false] at h ⊢
  split_ifs at h ⊢ <;> first | rfl | exact absurd rfl h

end Scalar

namespace Node

mutual

/-- Whether the second of two nodes is the first with its dates left as texts. -/
inductive Undated : Node → Node → Prop where
  | scalar (tag : Tag) (t : Text) : Undated (.scalar tag t) (.scalar tag t)
  | date {t : Text} (h : Scalar.IsDate t) : Undated (.scalar .timestamp t) (.scalar .str t)
  | sequence (tag : Tag) {items items' : List Node} (h : UndatedItems items items') :
      Undated (.sequence tag items) (.sequence tag items')
  | mapping (tag : Tag) {pairs pairs' : List (Node × Node)} (h : UndatedPairs pairs pairs') :
      Undated (.mapping tag pairs) (.mapping tag pairs')

inductive UndatedItems : List Node → List Node → Prop where
  | nil : UndatedItems [] []
  | cons {n n' : Node} {rest rest' : List Node} (h : Undated n n') (hRest : UndatedItems rest rest') :
      UndatedItems (n :: rest) (n' :: rest')

inductive UndatedPairs : List (Node × Node) → List (Node × Node) → Prop where
  | nil : UndatedPairs [] []
  | cons {k k' v v' : Node} {rest rest' : List (Node × Node)} (hKey : Undated k k') (h : Undated v v')
      (hRest : UndatedPairs rest rest') : UndatedPairs ((k, v) :: rest) ((k', v') :: rest')

end

theorem undated_implicit (t : Text) :
    Undated (.scalar (Scalar.implicitTag true t) t) (.scalar (Scalar.implicitTag false t) t) := by
  by_cases hDate : Scalar.IsDate t
  · rw [Scalar.implicitTag_of_isDate hDate, hDate]
    exact .date hDate
  · rw [Scalar.implicitTag_of_not_isDate hDate]
    exact .scalar _ t

/-- Whether the second of two states is the first without dates. -/
structure State.Undated (s s' : State) : Prop where
  tokens : s'.tokens = s.tokens
  anchors : List.Forall₂ (fun a a' => a.1 = a'.1 ∧ Option.Rel Node.Undated a.2 a'.2) s.anchors s'.anchors
  handles : s'.handles = s.handles
  dates : s.dates = true ∧ s'.dates = false

variable {α β γ δ : Type} {R : α → β → Prop} {S : γ → δ → Prop} {x : Build α} {y : Build β}

/-- Whether two steps of a reading, one with dates and one without, stay side by side. -/
def Alike (R : α → β → Prop) (x : Build α) (y : Build β) : Prop :=
  ∀ ⦃s s' : State⦄, s.Undated s' → Related (fun p q => R p.1 q.1 ∧ p.2.Undated q.2) (x.run s) (y.run s')

namespace Alike

theorem pure {a : α} {b : β} (h : R a b) : Alike R (pure a) (pure b) := fun _ _ hState => .ok ⟨h, hState⟩

theorem fail (f : Fault) : Alike R (Node.fail f) (Node.fail f) := fun _ _ _ => .error f

theorem bind {f : α → Build γ} {g : β → Build δ} (h : Alike R x y) (hNext : ∀ a b, R a b → Alike S (f a) (g b)) :
    Alike S (x >>= f) (y >>= g) := by
  intro s s' hState
  rw [StateT.run_bind, StateT.run_bind]
  exact (h hState).bind fun _ _ hOne => hNext _ _ hOne.1 hOne.2

theorem bind_same {x y : Build α} {f : α → Build γ} {g : α → Build δ} (h : Alike Eq x y)
    (hNext : ∀ a, Alike S (f a) (g a)) : Alike S (x >>= f) (y >>= g) :=
  h.bind fun a _ hSame => hSame ▸ hNext a

theorem ite {p : Prop} [Decidable p] {x' : Build α} {y' : Build β} (hThen : Alike R x y) (hElse : Alike R x' y') :
    Alike R (if p then x else x') (if p then y else y') := by
  split
  · exact hThen
  · exact hElse

end Alike

theorem alike_modify {f g : State → State} (h : ∀ s s', s.Undated s' → (f s).Undated (g s')) :
    Alike Eq (modify f : Build Unit) (modify g) := fun _ _ hState => .ok ⟨rfl, h _ _ hState⟩

theorem run_peek (s : State) : peek.run s = match s.tokens with
    | [] => .ok (.streamEnd, s)
    | .fault f :: _ => .error f
    | t :: _ => .ok (t, s) := by
  obtain ⟨tokens, anchors, handles, dates⟩ := s
  rcases tokens with _ | ⟨_ | _, _⟩ <;> rfl

theorem alike_peek : Alike Eq peek peek := by
  intro s s' hState
  rw [run_peek, run_peek, hState.tokens]
  split
  · exact .ok ⟨rfl, hState⟩
  · exact .error _
  · exact .ok ⟨rfl, hState⟩

theorem alike_advance : Alike Eq advance advance :=
  alike_modify fun _ _ hState => { hState with tokens := congrArg List.tail hState.tokens }

theorem alike_accept (t : Token) : Alike Eq (accept t) (accept t) :=
  alike_peek.bind_same fun _ => .ite (alike_advance.bind_same fun _ => .pure rfl) (.pure rfl)

theorem alike_atAny (ts : List Token) : Alike Eq (atAny ts) (atAny ts) :=
  alike_peek.bind_same fun _ => .pure rfl

theorem run_fullTag (handle suffix : Text) (s : State) :
    (properties.fullTag (some handle) suffix).run s = match s.handles.lookup handle with
      | some pre => .ok (pre ++ suffix, s)
      | none => .error .malformed := by
  change properties.fullTag (some handle) suffix s = _
  cases hFound : s.handles.lookup handle <;>
    simp only [properties.fullTag, bind, StateT.bind, get, getThe, MonadStateOf.get, StateT.get, pure, Except.pure,
      Except.bind, hFound] <;> rfl

theorem alike_fullTag (handle : Option Text) (suffix : Text) :
    Alike Eq (properties.fullTag handle suffix) (properties.fullTag handle suffix) := by
  cases handle with
  | none => exact .pure rfl
  | some h =>
      intro s s' hState
      rw [run_fullTag, run_fullTag, hState.handles]
      split
      · exact .ok ⟨rfl, hState⟩
      · exact .error _

theorem alike_properties : Alike Eq properties properties := by
  refine alike_peek.bind_same fun t => ?_
  split
  · refine alike_advance.bind_same fun _ => alike_peek.bind_same fun t => ?_
    split
    · exact alike_advance.bind_same fun _ => (alike_fullTag _ _).bind_same fun _ => .pure rfl
    · exact .pure rfl
  · refine alike_advance.bind_same fun _ => alike_peek.bind_same fun t => ?_
    split
    · exact alike_advance.bind_same fun _ => (alike_fullTag _ _).bind_same fun _ => .pure rfl
    · exact (alike_fullTag _ _).bind_same fun _ => .pure rfl
  · exact .pure rfl

theorem rel_lookup {as bs : List (Text × Option Node)}
    (h : List.Forall₂ (fun a b => a.1 = b.1 ∧ Option.Rel Undated a.2 b.2) as bs) (name : Text) :
    Option.Rel (Option.Rel Undated) (as.lookup name) (bs.lookup name) := by
  induction h with
  | nil => exact .none
  | @cons a b _ _ hHead _ ih =>
      obtain ⟨k, n⟩ := a
      obtain ⟨k', n'⟩ := b
      obtain ⟨rfl, hNode⟩ : k = k' ∧ Option.Rel Undated n n' := hHead
      rw [List.lookup_cons, List.lookup_cons]
      split
      · exact .some hNode
      · exact ih

theorem alike_reserve (anchor : Option Text) : Alike Eq (reserve anchor) (reserve anchor) := by
  cases anchor with
  | none => exact .pure rfl
  | some a =>
      intro s s' hState
      have hRun : ∀ s : State, (reserve (some a)).run s = if (s.anchors.lookup a).isSome then .error .malformed
          else .ok ((), { s with anchors := (a, none) :: s.anchors }) := by
        intro s
        change (if (s.anchors.lookup a).isSome then _ else _ : Build Unit) s = _
        split <;> rfl
      have hKnown : (s'.anchors.lookup a).isSome = (s.anchors.lookup a).isSome := by
        have hRel := rel_lookup hState.anchors a
        generalize s.anchors.lookup a = found at hRel ⊢
        generalize s'.anchors.lookup a = found' at hRel ⊢
        cases hRel <;> rfl
      rw [hRun, hRun, hKnown]
      split
      · exact .error _
      · exact .ok ⟨rfl, { hState with anchors := .cons ⟨rfl, .none⟩ hState.anchors }⟩

theorem alike_settle (anchor : Option Text) {n n' : Node} (h : Undated n n') :
    Alike Undated (settle anchor n) (settle anchor n') := by
  cases anchor with
  | none => exact .pure h
  | some a =>
      let settled (n : Node) (s : State) : State :=
        { s with anchors := s.anchors.map fun e => if e.1 == a then (a, some n) else e }
      have hSettled : Alike Eq (modify (settled n) : Build Unit) (modify (settled n')) := by
        refine alike_modify fun s s' hState => { hState with anchors := ?_ }
        refine List.forall₂_map_left_iff.mpr (List.forall₂_map_right_iff.mpr (hState.anchors.imp fun b b' hPair => ?_))
        rw [← hPair.1]
        split
        · exact ⟨rfl, .some h⟩
        · exact hPair
      exact hSettled.bind_same fun _ => .pure h

theorem alike_alias (name : Text) :
    Alike Undated
      (do match (← get).anchors.lookup name with
        | some (some n) => return n
        | some none => fail .endless
        | none => fail)
      (do match (← get).anchors.lookup name with
        | some (some n) => return n
        | some none => fail .endless
        | none => fail) := by
  intro s s' hState
  have hRel := rel_lookup hState.anchors name
  change Related _ ((match s.anchors.lookup name with | some (some n) => _ | some none => _ | none => _ : Build Node) s)
    ((match s'.anchors.lookup name with | some (some n) => _ | some none => _ | none => _ : Build Node) s')
  generalize s.anchors.lookup name = found at hRel ⊢
  generalize s'.anchors.lookup name = found' at hRel ⊢
  rcases hRel with ⟨⟨hNode⟩ | _⟩ | _
  · exact .ok ⟨hNode, hState⟩
  · exact .error _
  · exact .error _

theorem alike_bareNode (tag anchor : Option Text) : Alike Undated (bareNode tag anchor) (bareNode tag anchor) := by
  have hRest : Alike Undated
      (do
        reserve anchor
        let byForm := tag.isNone || tag == some (Text.ofString "!")
        settle anchor (scalar (if byForm then .null else tagOr .str tag) []))
      (do
        reserve anchor
        let byForm := tag.isNone || tag == some (Text.ofString "!")
        settle anchor (scalar (if byForm then .null else tagOr .str tag) [])) :=
    (alike_reserve anchor).bind_same fun _ => alike_settle anchor (.scalar _ _)
  exact .ite ((Alike.fail _).bind_same fun _ => hRest) hRest

/-- A scalar gets its tag by its form or from the text before it. -/
theorem alike_scalar (tag anchor : Option Text) (isPlain : Bool) (t : Text) :
    Alike Undated
      (do
        reserve anchor
        let byForm := (isPlain && tag.isNone) || tag == some (Text.ofString "!")
        let dates := (← get).dates
        settle anchor (scalar (if byForm then Scalar.implicitTag dates t else tagOr .str tag) t))
      (do
        reserve anchor
        let byForm := (isPlain && tag.isNone) || tag == some (Text.ofString "!")
        let dates := (← get).dates
        settle anchor (scalar (if byForm then Scalar.implicitTag dates t else tagOr .str tag) t)) := by
  refine (alike_reserve anchor).bind_same fun _ => ?_
  intro s s' hState
  obtain ⟨hDates, hUndated⟩ := hState.dates
  have hNode : Undated
      (.scalar (if (isPlain && tag.isNone) || tag == some (Text.ofString "!") then Scalar.implicitTag s.dates t
        else tagOr .str tag) t)
      (.scalar (if (isPlain && tag.isNone) || tag == some (Text.ofString "!") then Scalar.implicitTag s'.dates t
        else tagOr .str tag) t) := by
    rw [hDates, hUndated]
    split
    · exact undated_implicit t
    · exact .scalar _ t
  exact alike_settle anchor hNode hState

/-- Between the entries of a flow collection there is a comma. -/
theorem Alike.afterComma (first : Bool) {rest : Unit → Build γ} {rest' : Unit → Build δ}
    (h : Alike S (rest ()) (rest' ())) :
    Alike S
      (if !first then do
          if !(← accept .comma) then rest (← Node.fail) else rest ()
        else rest ())
      (if !first then do
          if !(← accept .comma) then rest' (← Node.fail) else rest' ()
        else rest' ()) :=
  .ite ((alike_accept _).bind_same fun _ => .ite ((Alike.fail _).bind_same fun _ => h) h) h

mutual

theorem alike_read (block bare : Bool) (fuel : Nat) : Alike Undated (read block bare fuel) (read block bare fuel) := by
  match fuel with
  | 0 => exact .fail _
  | fuel + 1 =>
      rw [read]
      refine alike_peek.bind_same fun t => ?_
      split
      · exact alike_advance.bind_same fun _ => alike_alias _
      · refine alike_properties.bind_same fun (tag, anchor) => alike_peek.bind_same fun t => ?_
        dsimp only
        have hBare := alike_bareNode tag anchor
        split
        · exact alike_advance.bind_same fun _ => alike_scalar tag anchor _ _
        · exact alike_advance.bind_same fun _ => (alike_reserve anchor).bind_same fun _ =>
            (alike_flowItems true fuel).bind fun _ _ h => alike_settle anchor (.sequence _ h)
        · exact alike_advance.bind_same fun _ => (alike_reserve anchor).bind_same fun _ =>
            (alike_flowPairs true fuel).bind fun _ _ h => alike_settle anchor (.mapping _ h)
        · refine .ite ?_ hBare
          exact alike_advance.bind_same fun _ => (alike_reserve anchor).bind_same fun _ =>
            (alike_blockItems fuel).bind fun _ _ h => alike_settle anchor (.sequence _ h)
        · refine .ite ?_ hBare
          exact alike_advance.bind_same fun _ => (alike_reserve anchor).bind_same fun _ =>
            (alike_blockPairs fuel).bind fun _ _ h => alike_settle anchor (.mapping _ h)
        · refine .ite ?_ hBare
          exact (alike_reserve anchor).bind_same fun _ =>
            (alike_bareItems fuel).bind fun _ _ h => alike_settle anchor (.sequence _ h)
        · exact hBare

theorem alike_readUnless (ends : List Token) (block bare : Bool) (fuel : Nat) :
    Alike Undated (readUnless ends block bare fuel) (readUnless ends block bare fuel) := by
  match fuel with
  | 0 => exact .fail _
  | fuel + 1 =>
      rw [readUnless]
      exact (alike_atAny ends).bind_same fun _ => .ite (.pure (.scalar _ _)) (alike_read block bare fuel)

theorem alike_blockItems (fuel : Nat) : Alike UndatedItems (blockItems fuel) (blockItems fuel) := by
  match fuel with
  | 0 => exact .fail _
  | fuel + 1 =>
      rw [blockItems]
      refine (alike_accept _).bind_same fun _ => .ite ?_ ?_
      · exact (alike_readUnless _ true false fuel).bind fun _ _ h =>
          (alike_blockItems fuel).bind fun _ _ hRest => .pure (.cons h hRest)
      · exact (alike_accept _).bind_same fun _ => .ite (.pure .nil) (.fail _)

theorem alike_bareItems (fuel : Nat) : Alike UndatedItems (bareItems fuel) (bareItems fuel) := by
  match fuel with
  | 0 => exact .fail _
  | fuel + 1 =>
      rw [bareItems]
      refine (alike_accept _).bind_same fun _ => .ite ?_ (.pure .nil)
      exact (alike_readUnless _ true false fuel).bind fun _ _ h =>
        (alike_bareItems fuel).bind fun _ _ hRest => .pure (.cons h hRest)

theorem alike_blockPairs (fuel : Nat) : Alike UndatedPairs (blockPairs fuel) (blockPairs fuel) := by
  match fuel with
  | 0 => exact .fail _
  | fuel + 1 =>
      have hRead := alike_readUnless [.key, .value, .blockEnd] true true fuel
      rw [blockPairs]
      refine (alike_accept _).bind_same fun _ => .ite (.pure .nil) ?_
      refine Alike.bind ((alike_accept _).bind_same fun _ => .ite hRead (.fail _)) fun _ _ hKey => ?_
      refine Alike.bind ((alike_accept _).bind_same fun _ => .ite hRead (.pure (.scalar _ _))) fun _ _ h => ?_
      exact (alike_blockPairs fuel).bind fun _ _ hRest => .pure (.cons hKey h hRest)

theorem alike_flowItems (first : Bool) (fuel : Nat) :
    Alike UndatedItems (flowItems first fuel) (flowItems first fuel) := by
  match fuel with
  | 0 => exact .fail _
  | fuel + 1 =>
      have hOthers := alike_flowItems false fuel
      rw [flowItems]
      refine (alike_accept _).bind_same fun _ => .ite (.pure .nil) ?_
      refine .afterComma first ((alike_accept _).bind_same fun _ => .ite ?_ ?_)
      · refine (alike_readUnless _ false false fuel).bind fun _ _ hKey => ?_
        refine Alike.bind ((alike_accept _).bind_same fun _ => .ite (alike_readUnless _ false false fuel)
          (.pure (.scalar _ _))) fun _ _ h => ?_
        exact hOthers.bind fun _ _ hRest => .pure (.cons (.mapping _ (.cons hKey h .nil)) hRest)
      · refine (alike_accept _).bind_same fun _ => .ite (.pure .nil) ?_
        exact (alike_read false false fuel).bind fun _ _ h => hOthers.bind fun _ _ hRest => .pure (.cons h hRest)

theorem alike_flowPairs (first : Bool) (fuel : Nat) :
    Alike UndatedPairs (flowPairs first fuel) (flowPairs first fuel) := by
  match fuel with
  | 0 => exact .fail _
  | fuel + 1 =>
      have hOthers := alike_flowPairs false fuel
      rw [flowPairs]
      refine (alike_accept _).bind_same fun _ => .ite (.pure .nil) ?_
      refine .afterComma first ((alike_accept _).bind_same fun _ => .ite ?_ ?_)
      · refine (alike_readUnless _ false false fuel).bind fun _ _ hKey => ?_
        refine Alike.bind ((alike_accept _).bind_same fun _ => .ite (alike_readUnless _ false false fuel)
          (.pure (.scalar _ _))) fun _ _ h => ?_
        exact hOthers.bind fun _ _ hRest => .pure (.cons hKey h hRest)
      · refine (alike_accept _).bind_same fun _ => .ite (.pure .nil) ?_
        exact (alike_read false false fuel).bind fun _ _ hKey =>
          hOthers.bind fun _ _ hRest => .pure (.cons hKey (.scalar _ _) hRest)

end

theorem alike_directives (fuel : Nat) (versioned : Bool) (hs : List (Text × Text)) :
    Alike Eq (directives fuel versioned hs) (directives fuel versioned hs) := by
  induction fuel generalizing versioned hs with
  | zero => exact .pure rfl
  | succ fuel ih =>
      rw [directives]
      refine alike_peek.bind_same fun t => ?_
      split
      · have hRest := alike_advance.bind_same fun _ => ih true hs
        exact .ite ((Alike.fail _).bind_same fun _ => hRest) hRest
      · next name uri =>
          have hRest := alike_advance.bind_same fun _ => ih versioned ((name, uri) :: hs)
          exact .ite ((Alike.fail _).bind_same fun _ => hRest) hRest
      · exact alike_advance.bind_same fun _ => ih versioned hs
      · exact .pure rfl

theorem alike_skipDocumentEnds (fuel : Nat) : Alike Eq (skipDocumentEnds fuel) (skipDocumentEnds fuel) := by
  induction fuel with
  | zero => exact .pure rfl
  | succ fuel ih => exact (alike_accept _).bind_same fun _ => .ite ih (.pure rfl)

/-- A document that does not start where the next one does is read. -/
theorem alike_startedDocument (fuel : Nat) :
    Alike Undated
      (do match ← peek with
        | .version _ | .handle .. | .directive | .documentStart | .documentEnd | .streamEnd => return empty
        | _ => read true false fuel)
      (do match ← peek with
        | .version _ | .handle .. | .directive | .documentStart | .documentEnd | .streamEnd => return empty
        | _ => read true false fuel) := by
  refine alike_peek.bind_same fun t => ?_
  split
  case h_7 => exact alike_read true false fuel
  all_goals exact .pure (.scalar _ _)

theorem alike_explicitDocument (fuel : Nat) : Alike Undated (explicitDocument fuel) (explicitDocument fuel) := by
  refine (alike_directives fuel false []).bind_same fun hs => ?_
  let handled (s : State) : State := { s with handles := hs ++ defaultHandles }
  have hHandled : Alike Eq (modify handled : Build Unit) (modify handled) :=
    alike_modify fun _ _ hState => { hState with handles := rfl }
  refine hHandled.bind_same fun _ => ?_
  have hRest := alike_startedDocument fuel
  exact (alike_accept _).bind_same fun _ => .ite ((Alike.fail _).bind_same fun _ => hRest) hRest

/-- Whether a stream starts with a document that has no mark. -/
theorem alike_isBare :
    Alike Eq
      (do match ← peek with
        | .version _ | .handle .. | .directive | .documentStart | .streamEnd => return false
        | _ => return true)
      (do match ← peek with
        | .version _ | .handle .. | .directive | .documentStart | .streamEnd => return false
        | _ => return true) :=
  alike_peek.bind_same fun t => by split <;> exact .pure rfl

theorem alike_stream (fuel : Nat) : Alike (Option.Rel Undated) (stream fuel) (stream fuel) := by
  rw [stream]
  refine alike_isBare.bind_same fun isBare => ?_
  refine Alike.bind (R := Option.Rel Undated) (.ite ?_ ?_) fun doc doc' hDoc => ?_
  · exact (alike_read true false fuel).bind fun _ _ h => .pure (.some h)
  · refine (alike_skipDocumentEnds fuel).bind_same fun _ => alike_peek.bind_same fun _ => .ite (.pure .none) ?_
    exact (alike_explicitDocument fuel).bind fun _ _ h => .pure (.some h)
  · have hEnd : Alike (Option.Rel Undated)
        (do
          if (← peek) != .streamEnd then fail
          return doc)
        (do
          if (← peek) != .streamEnd then fail
          return doc') :=
      alike_peek.bind_same fun _ => .ite ((Alike.fail _).bind_same fun _ => .pure hDoc) (.pure hDoc)
    cases hDoc with
    | none => exact hEnd
    | some h =>
        have hDiscard : Alike Eq (discard (accept .documentEnd)) (discard (accept .documentEnd)) :=
          (alike_accept _).bind_same fun _ => .pure rfl
        exact hDiscard.bind_same fun _ => (alike_skipDocumentEnds fuel).bind_same fun _ => hEnd

/-- The same tokens make nodes that differ in the dates only. -/
theorem related_ofTokens? (ts : List Token) :
    Related (Option.Rel Undated) (ofTokens? true ts) (ofTokens? false ts) := by
  have hState : State.Undated ⟨ts, [], defaultHandles, true⟩ ⟨ts, [], defaultHandles, false⟩ :=
    ⟨rfl, .nil, rfl, rfl, rfl⟩
  exact (alike_stream _ hState).map fun _ _ h => h.1

end Node

end Conform.Yaml
