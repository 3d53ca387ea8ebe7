import Conform.Proofs.Except
import Conform.Proofs.Signatures.Lexing
import Conform.Proofs.Signatures.WrittenOut
import Conform.Signatures.Detector

/-! What the program makes of an expression that is well formed: the expression with its flags written out. The
scan of its text follows the tree, part by part. -/
namespace Conform.Signatures

variable {free : Prop} {t r : Text} {s : Scoped} {e : Expr}

/-- Whether a scan of the text comes to this, and if the text is free of groups of flags, without meeting one. -/
def Reaches (free : Prop) (t : Text) (s : Scoped) : Prop :=
  ∃ passed, Scans t passed s ∧ (free → ∀ u ∈ passed, flagGroup? u = none)

namespace Reaches

/-- A scan ends where the group around it does. -/
theorem ended (hEnd : Ends r) : Reaches free r ⟨[], [], r⟩ := by
  cases r with
  | nil => exact ⟨[], .ended, fun _ => nofun⟩
  | cons p rest => exact ⟨[], .closed (char_of_ends hEnd), fun _ => nofun⟩

theorem piece {p : Point} (hChar : p.char ∉ turns) (h : Reaches free (cutPiece p r).2 s) :
    Reaches free (p :: r) (s.after (cutPiece p r).1) := by
  obtain ⟨passed, hScan, hFree⟩ := h
  have hOpen : p.char ≠ '(' := fun h => hChar (h ▸ by decide)
  exact ⟨_, .piece hChar hScan, fun hYes =>
    List.forall_mem_cons.mpr ⟨flagGroup?_eq_none hOpen, hFree hYes⟩⟩

theorem atom (a : Atom) (h : Reaches free r s) : Reaches free (a.text ++ r) (s.after a.text) := by
  obtain ⟨p, t, hText, hChar, hCut⟩ := exists_cutPiece a r
  have hPiece : Reaches free (p :: t) (s.after (cutPiece p t).1) := piece hChar (by rwa [hCut])
  rwa [hCut, ← hText] at hPiece

theorem plain {t : Text} (hPlain : ∀ p ∈ t, IsPlain p) (h : Reaches free r s) :
    Reaches free (t ++ r) (s.after t) := by
  induction t with
  | nil => exact h
  | cons p t ih =>
      obtain ⟨hHere, hRest⟩ := List.forall_mem_cons.mp hPlain
      have hCut : cutPiece p (t ++ r) = ([p], t ++ r) := by
        rw [cutPiece, if_neg (fun h => hHere (by simp [eq_of_beq h, structural])),
          if_neg (fun h => hHere (by simp [eq_of_beq h, structural]))]
      have hTurn : p.char ∉ turns := fun h => hHere ((show turns ⊆ structural by decide) h)
      have hPiece : Reaches free (p :: (t ++ r)) ((s.after t).after (cutPiece p (t ++ r)).1) :=
        piece hTurn (by rw [hCut]; exact ih hRest)
      rwa [hCut] at hPiece

theorem bar (h : Reaches free r s) : Reaches free (Point.ofChar '|' :: r) ⟨[], s.alternatives, s.rest⟩ := by
  obtain ⟨passed, hScan, hFree⟩ := h
  exact ⟨_, .bar (by decide) hScan, fun hYes =>
    List.forall_mem_cons.mpr ⟨flagGroup?_eq_none (by decide), hFree hYes⟩⟩

theorem flags (c : Change) (h : Reaches free r s) :
    Reaches False ("(?" ++ (c.text ++ Point.ofChar ')' :: r)) (s.under c.text) := by
  obtain ⟨passed, hScan, -⟩ := h
  exact ⟨_, .flags (flagGroup?_flags c r) hScan, False.elim⟩

/-- A group whose body is gone through to its end is passed as a whole. -/
theorem group (o : Opening) {body : Text} {inner : Scoped}
    (hCapture : o = .capture → ∀ p, body.head? = some p → p.char ≠ '?')
    (hBody : Reaches free body inner) (hClosed : inner.rest = Point.ofChar ')' :: r) (h : Reaches free r s) :
    Reaches free (o.text ++ body)
      (s.after (o.text ++ Text.join "|" inner.alternatives ++ [Point.ofChar ')'])) := by
  obtain ⟨opening, plain, hText, hCut, hPlain⟩ := exists_cutOpening o body hCapture
  obtain ⟨passed, hInner, hFree⟩ := Reaches.plain hPlain hBody
  obtain ⟨passed', hScan, hFree'⟩ := h
  have hNone := flagGroup?_opening o body hCapture
  obtain ⟨inside, hOpen⟩ := exists_cons_opening o
  rw [hOpen, List.cons_append] at hNone hCut
  have hBody : Scans (cutOpening (Point.ofChar '(' :: (inside ++ body))).2 passed (inner.after plain) := by
    rwa [hCut]
  have hGroup := Scans.group (by decide) hNone hBody hClosed hScan
  have hJoin : opening ++ Text.join "|" (inner.after plain).alternatives =
      o.text ++ Text.join "|" inner.alternatives := by
    rw [hText, List.append_assoc]
    exact congrArg _ (join_cons_append _ _ _ _)
  rw [hCut, hJoin] at hGroup
  rw [hOpen] at hGroup ⊢
  exact ⟨_, hGroup, fun hYes => List.forall_mem_cons.mpr
    ⟨hNone, List.forall_mem_append.mpr ⟨hFree hYes, hFree' hYes⟩⟩⟩

theorem mono {free' : Prop} (hFree : free' → free) (h : Reaches free t s) : Reaches free' t s :=
  h.imp fun _ ⟨hScan, hNone⟩ => ⟨hScan, fun hYes => hNone (hFree hYes)⟩

end Reaches

/-- A scan of an expression comes to its alternatives with the flags written out. -/
theorem reaches_text (hReadable : e.isReadable = true) (hEnd : Ends r) :
    Reaches (e.flagGroups = []) (e.text ++ r) ⟨e.alternatives.1.text, e.alternatives.2.map Expr.text, r⟩ := by
  induction e generalizing r with
  | done => exact .ended hEnd
  | atom a next ih =>
      rw [Expr.text, List.append_assoc]
      exact (ih hReadable hEnd).atom a
  | quantifier q next ih =>
      rw [Expr.text, List.append_assoc]
      exact (ih hReadable hEnd).plain (isPlain_quantifier q)
  | bar next ih => exact (ih hReadable hEnd).bar
  | flags c next ih =>
      have hOthers : (next.alternatives.2.map fun e => Expr.group (.under c) e .done).map Expr.text =
          (next.alternatives.2.map Expr.text).map fun t : Text => "(?" ++ c.text ++ ":" ++ t ++ (")" : Text) := by
        simp only [List.map_map, Function.comp_def, text_under]
      rw [text_flags, Expr.alternatives, text_under, hOthers]
      exact ((ih hReadable hEnd).flags c).mono fun h => absurd h (List.cons_ne_nil c next.flagGroups)
  | group o body next ihBody ih =>
      obtain ⟨hBody, hNext, -⟩ := isReadable_group hReadable
      have hGroup : (Expr.group o body next).alternatives.1.text = o.text ++
          Text.join "|" (body.alternatives.1.text :: body.alternatives.2.map Expr.text) ++ [Point.ofChar ')'] ++
            next.alternatives.1.text := by
        simp only [Expr.alternatives, Expr.text, text_ofAlternatives, List.append_assoc, List.cons_append,
          List.nil_append]
      have hInner := (ihBody hBody (ends_close (next.text ++ r))).mono
        fun h : body.flagGroups ++ next.flagGroups = [] => (List.append_eq_nil_iff.mp h).1
      have hRest := (ih hNext hEnd).mono
        fun h : body.flagGroups ++ next.flagGroups = [] => (List.append_eq_nil_iff.mp h).2
      rw [text_group, hGroup]
      exact Reaches.group o (char_ne_of_isReadable hReadable) hInner rfl hRest

/-- The program cuts an expression behind the groups of flags at its start. -/
theorem leadingFlags_text (hReadable : e.isReadable = true) {fuel : Nat} (hFuel : e.text.length ≤ fuel) :
    leadingFlags fuel e.text = (leadText e, e.afterLead.text) := by
  have hRest : (leadingFlags fuel e.text).2 = e.afterLead.text := by
    induction e generalizing fuel with
    | flags c next ih =>
        have hShort := (lt_of_flagGroup? (flagGroup?_flags c next.text)).2.trans_le hFuel
        obtain ⟨fuel, rfl⟩ := Nat.exists_eq_add_one_of_ne_zero (Nat.ne_zero_of_lt hShort)
        rw [Expr.text, leadingFlags, flagGroup?_flags]
        exact ih hReadable (Nat.le_of_lt_succ hShort)
    | done | atom | quantifier | bar | group =>
        have hNone := flagGroup?_text ends_nil hReadable rfl
        rw [List.append_nil] at hNone
        cases fuel with
        | zero => rfl
        | succ fuel =>
            rw [leadingFlags, hNone]
            rfl
  exact cut_eq (leadingFlags_append fuel e.text) (leadText_append e).symm hRest

/-- What the program makes of an expression is the expression with its flags written out. -/
theorem scopeFlags_text (hReadable : e.isReadable = true) : scopeFlags e.text = e.writtenOut.text := by
  have hLead := leadingFlags_text hReadable le_rfl
  obtain ⟨passed, hScan, -⟩ := reaches_text (isReadable_afterLead hReadable) ends_nil
  rw [List.append_nil] at hScan
  rw [scopeFlags_eq e.text (by rwa [hLead]), hLead, writtenOut_eq, text_ofAlternatives, List.append_nil]
  rfl

/-- Wherever an expression sets flags, in what is made of it groups of flags alone stand at its very start only,
and they are those that stood there before. -/
theorem flagGroups_scopeFlags (hReadable : e.isReadable = true) :
    ∃ s : Expr, s.isReadable = true ∧ scopeFlags e.text = s.text ∧ s.lead = e.lead ∧ s.flagGroups = e.lead ∧
      ∃ passed found, Scans (leadingFlags s.text.length s.text).2 passed found ∧ found.rest = [] ∧
        ∀ u ∈ passed, flagGroup? u = none := by
  have hWritten := isReadable_writtenOut hReadable
  obtain ⟨hLead, hGroups⟩ := flagGroups_writtenOut e
  have hNone : e.writtenOut.afterLead.flagGroups = [] := by
    have hParts := flagGroups_afterLead e.writtenOut
    rw [hGroups, hLead] at hParts
    exact List.self_eq_append_right.mp hParts
  obtain ⟨passed, hScan, hFree⟩ := reaches_text (isReadable_afterLead hWritten) ends_nil
  have hBody : (leadingFlags e.writtenOut.text.length e.writtenOut.text).2 = e.writtenOut.afterLead.text := by
    rw [leadingFlags_text hWritten le_rfl]
  rw [List.append_nil, ← hBody] at hScan
  exact ⟨e.writtenOut, hWritten, scopeFlags_text hReadable, hLead, hGroups, passed, _, hScan, rfl, hFree hNone⟩

/-- The expression `(?-i)a(?i)b`. -/
def offFirst : Expr :=
  .flags (.switchOff .ignoreCase)
    (.letter 'a' (by decide) (.flags (.switchOn .ignoreCase) (.letter 'b' (by decide) .done)))

theorem flagGroups_scopeFlags_offFirst :
    offFirst.isReadable = true ∧ ∃ s : Expr, s.isReadable = true ∧ scopeFlags offFirst.text = s.text ∧
      s.lead = offFirst.lead ∧ s.flagGroups = offFirst.lead ∧
      ∃ passed found, Scans (leadingFlags s.text.length s.text).2 passed found ∧ found.rest = [] ∧
        ∀ u ∈ passed, flagGroup? u = none :=
  ⟨by decide, flagGroups_scopeFlags (by decide)⟩

/-- A group of flags at the very start that switches one off is left as it is, and the expression is refused. -/
theorem ofMatcher?_offFirst :
    offFirst.isPattern false = true ∧ offFirst.text = ("(?-i)a(?i)b" : Text) ∧
      scopeFlags offFirst.text = ("(?-i)a(?i:b)" : Text) ∧
      Pattern.compile (scopeFlags offFirst.text) { multiline := true, ignoreCase := true } =
        .error ⟨.colonMissing, 8⟩ ∧
      Probe.ofMatcher? [] ⟨"regex", [], offFirst.text, .zero, true⟩ =
        .error (.signaturePattern [] offFirst.text "missing : at position 4") := by
  have hCompile : Pattern.compile (scopeFlags offFirst.text) { multiline := true, ignoreCase := true } =
      .error ⟨.colonMissing, 8⟩ := eq_error_of_fault? (by decide +kernel)
  refine ⟨by decide, by decide, by decide +kernel, hCompile, ?_⟩
  have hMessage : (⟨.colonMissing, 8⟩ : Pattern.Fault).message (scopeFlags offFirst.text) =
      ("missing : at position 4" : Text) := by decide +kernel
  unfold Probe.ofMatcher?
  rw [if_neg (by decide), if_neg (by decide), if_neg (by decide), if_pos (by decide)]
  dsimp only [Probe.flagsOf]
  rw [hCompile]
  dsimp only
  rw [if_neg (by decide), hMessage]

end Conform.Signatures
