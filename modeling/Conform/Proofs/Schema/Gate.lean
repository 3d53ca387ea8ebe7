import Conform.Proofs.Path
import Conform.Proofs.Schema.Failures
import Conform.Proofs.Schema.Linked
import Conform.Proofs.Schema.Parsed

/-! The gate for dialects. What the root of a schema declares decides whether the schema is refused, in
whichever way it is compiled and whether or not the declaration is taken away for that. The gate stands
before everything else: nothing that comes later refuses a schema for its dialect, and where the gate does,
nothing else is looked at. -/
namespace Conform.Schema

variable {α β : Type} {x : Except Failure α} {bs : Bytes} {p : Parsed} {t : Text}

/-- Whether a computation fails, if at all, for other reasons than a dialect. -/
def IsLenient (x : Except Failure α) : Prop := ∀ t, x ≠ .error (.unsupportedDraft t)

namespace IsLenient

theorem ok (a : α) : IsLenient (.ok a : Except Failure α) := fun _ => nofun

theorem bind {f : α → Except Failure β} (h : IsLenient x) (hNext : ∀ a, IsLenient (f a)) :
    IsLenient (x >>= f) := by
  intro t hFails
  cases hX : x with
  | error why =>
      rw [hX] at hFails
      exact h t (hX.trans (congrArg _ (Except.error.inj hFails)))
  | ok a =>
      rw [hX] at hFails
      exact hNext a t hFails

theorem of_local (h : ∀ f, x = .error f → (∃ named why, f = .deadEnd named why) ∨ f.isLocal = true) :
    IsLenient x := by
  intro t hFails
  rcases h _ hFails with ⟨_, _, hDead⟩ | hLocal
  · cases hDead
  · cases hLocal

theorem mapM {f : α → Except Failure β} (h : ∀ a, IsLenient (f a)) (items : List α) :
    IsLenient (items.mapM f) := by
  intro t hFails
  obtain ⟨a, -, hOne⟩ := exists_of_mapM_error hFails
  exact h a t hOne

theorem forM {f : α → Except Failure Unit} (h : ∀ a, IsLenient (f a)) :
    ∀ items : List α, IsLenient (items.forM f)
  | [] => ok ()
  | a :: rest => (h a).bind fun _ => forM h rest

theorem foldlM {f : β → α → Except Failure β} {items : List α} (h : ∀ a ∈ items, ∀ b, IsLenient (f b a))
    (b : β) : IsLenient (items.foldlM f b) := by
  induction items generalizing b with
  | nil => exact ok b
  | cons a rest ih =>
      rw [List.foldlM_cons]
      exact (h a List.mem_cons_self b).bind fun b' => ih (fun a' hMem => h a' (List.mem_cons_of_mem a hMem)) b'

end IsLenient

namespace Parsed

/-- What the root of a schema declares as its dialect, if it is a text. -/
def rootDeclaration (bs : Bytes) : Option Text :=
  match Document.read? bs with
  | .ok (some (d, _)) => (d.get? "$schema").bind Document.text?
  | _ => none

/-- What counts as declared if something stands in for a declaration that is not there. -/
def standIn (declared given : Option Text) : Option Text := declared.or (given.filter (!·.isEmpty))

/-- Whether a text is declared that names no supported dialect. -/
def Refuses (declared : Option Text) (t : Text) : Prop :=
  declared = some t ∧ ¬ ("draft-07" : Text) <:+: t ∧ ¬ ("2020-12" : Text) <:+: t

theorem checkDialect_eq_error_iff {declared : Option Text} {f : Failure} :
    checkDialect declared = .error f ↔ ∃ t, Refuses declared t ∧ f = .unsupportedDraft t := by
  cases declared with
  | none =>
      refine ⟨nofun, ?_⟩
      rintro ⟨t, ⟨hNone, -⟩, -⟩
      cases hNone
  | some u =>
      have hSupported : supported.any (Text.contains · u) = true ↔
          ("draft-07" : Text) <:+: u ∨ ("2020-12" : Text) <:+: u := by
        simp [supported, Text.contains_iff]
      unfold checkDialect Refuses
      dsimp only
      split
      · next hSome =>
          refine ⟨nofun, ?_⟩
          rintro ⟨t, ⟨hSame, hOld, hNew⟩, -⟩
          obtain rfl := Option.some.inj hSame
          exact ((hSupported.mp hSome).elim hOld hNew).elim
      · next hNone =>
          obtain ⟨hOld, hNew⟩ := not_or.mp fun h => hNone (hSupported.mpr h)
          constructor
          · rintro hFails
            exact ⟨u, ⟨rfl, hOld, hNew⟩, (Except.error.inj hFails).symm⟩
          · rintro ⟨t, ⟨hSame, -⟩, rfl⟩
            obtain rfl := Option.some.inj hSame
            rfl

theorem rootDeclaration_of_read {strip : Bool} (h : read strip bs = .ok p) : rootDeclaration bs = p.declared := by
  obtain ⟨d, format, hRead, hDeclared, -⟩ := document_of_read h
  rw [rootDeclaration, hRead, hDeclared]

/-- What is refused for its declaration is refused for what its root declares, whether or not the
declaration was taken away on reading. -/
theorem refuses_read_iff {strip : Bool} (counts : Option Text → Option Text) :
    (∃ p, read strip bs = .ok p ∧ Refuses (counts p.declared) t) ↔
      (∃ p, read strip bs = .ok p) ∧ Refuses (counts (rootDeclaration bs)) t := by
  constructor
  · rintro ⟨p, hRead, hRefuses⟩
    exact ⟨⟨p, hRead⟩, (rootDeclaration_of_read hRead).symm ▸ hRefuses⟩
  · rintro ⟨⟨p, hRead⟩, hRefuses⟩
    exact ⟨p, hRead, rootDeclaration_of_read hRead ▸ hRefuses⟩

theorem isLenient_canonical (d : Document) : IsLenient d.canonical := by
  intro t hFails
  unfold Document.canonical at hFails
  split at hFails
  · next o _ => cases o <;> cases hFails
  · dsimp only at hFails
    split at hFails <;> cases hFails

theorem isLenient_read (strip : Bool) (bs : Bytes) : IsLenient (read strip bs) := by
  have hBytes : IsLenient (Document.read? bs) := by
    intro t hFails
    unfold Document.read? at hFails
    split at hFails <;> cases hFails
  refine hBytes.bind fun found => ?_
  cases found with
  | none => exact fun t hFails => nomatch hFails
  | some r => exact (isLenient_canonical _).bind fun _ => .ok _

end Parsed

namespace Index

theorem isLenient_directory (fs : Files) (raw : Text) : IsLenient (directory fs raw) := by
  intro t hFails
  unfold directory at hFails
  cases hClean : Path.clean raw with
  | error f =>
      rw [hClean] at hFails
      cases hFails
  | ok dir =>
      rw [hClean] at hFails
      simp only [Except.mapError, bind, Except.bind, pure, Except.pure] at hFails
      split at hFails <;> first | cases hFails | skip
      split at hFails <;> cases hFails

/-- A scan is never in the way of a schema for its dialect, or for that of a file that it meets. -/
theorem not_refused_of_mem_visits {fs : Files} {dirs : List Text} {strip : Bool}
    (h : .blocked (.unsupportedDraft t) ∈ visits fs dirs strip) : False := by
  obtain ⟨raw, -, hMem⟩ := List.mem_flatMap.mp h
  unfold visitDirectory at hMem
  split at hMem
  · obtain ⟨path, -, hVisit⟩ := List.mem_map.mp hMem
    unfold visitFile at hVisit
    split at hVisit
    · next content _ =>
        unfold visitContent at hVisit
        split at hVisit
        · split at hVisit <;> cases hVisit
        · cases hVisit
        · next f _ hFails =>
            obtain rfl := Visit.blocked.inj hVisit
            exact Parsed.isLenient_read strip content t hFails
    · cases hVisit
    · next f _ hFails =>
        obtain rfl := Visit.blocked.inj hVisit
        rcases Files.failure_of_read hFails with ⟨-, hNul⟩ | hAccess
        · cases hNul
        · cases hAccess
  · next f hFails =>
      obtain rfl := Visit.blocked.inj (List.mem_singleton.mp hMem)
      exact isLenient_directory fs raw t hFails

theorem isLenient_scan (fs : Files) (dirs : List Text) (seed : Index) (strip : Bool) :
    IsLenient (scan fs dirs seed strip) := by
  refine IsLenient.foldlM (fun v hMem ix t hFails => ?_) seed
  cases v with
  | found e =>
      rcases add_cases ix e with ⟨-, hAdd⟩ | ⟨_, -, -, hAdd⟩ | ⟨_, -, -, hAdd⟩ <;>
        cases hAdd.symm.trans hFails
  | passedOver path reason => cases hFails
  | blocked f =>
      obtain rfl : f = .unsupportedDraft t := Except.error.inj hFails
      exact not_refused_of_mem_visits hMem

end Index

namespace Compiled

theorem isLenient_checkConforms (d : Dialect) (document : Document) : IsLenient (checkConforms d document) := by
  refine IsLenient.bind (.of_local fun f hFails => failure_of_first? hFails) fun found => ?_
  cases found with
  | none => exact .ok ()
  | some finding => exact fun t hFails => nomatch hFails

theorem isLenient_checkReferences (r : Resolver) (document : Document) : IsLenient (checkReferences r document) := by
  refine IsLenient.forM (fun ref => IsLenient.bind (.of_local fun f hFails => ?_) fun outcome => ?_) _
  · exact .inr (Resolver.isLocal_of_lookup hFails)
  · cases outcome with
    | ok target => exact .ok ()
    | error why => exact fun t hFails => nomatch hFails

/-- Once a schema has been let through, nothing that is wrong with it is put down to its dialect. -/
theorem isLenient_ofParsed (p : Parsed) (others : List (Text × Document)) : IsLenient (ofParsed p others) := by
  refine (isLenient_checkConforms _ _).bind fun _ => IsLenient.bind (IsLenient.mapM (fun e t hFails => ?_) _) fun _ =>
    (isLenient_checkReferences _ _).bind fun _ => .ok _
  dsimp only at hFails
  split at hFails <;> cases hFails

/-- A gate before a lenient computation refuses what it refuses by itself. -/
theorem checkDialect_bind_iff {declared : Option Text} (h : IsLenient x) :
    (Parsed.checkDialect declared >>= fun _ => x) = .error (.unsupportedDraft t) ↔ Parsed.Refuses declared t := by
  cases hGate : Parsed.checkDialect declared with
  | error f =>
      obtain ⟨u, hRefuses, rfl⟩ := Parsed.checkDialect_eq_error_iff.mp hGate
      constructor
      · intro hFails
        cases hFails
        exact hRefuses
      · rintro ⟨hDeclared, -⟩
        obtain rfl := Option.some.inj (hRefuses.1.symm.trans hDeclared)
        rfl
  | ok _ =>
      refine ⟨fun hFails => absurd hFails (h t), fun hRefuses => ?_⟩
      cases hGate.symm.trans (Parsed.checkDialect_eq_error_iff.mpr ⟨t, hRefuses, rfl⟩)

/-- So does one that also stands behind a lenient computation. -/
theorem bind_checkDialect_iff {source : Except Failure Parsed} {declared : Parsed → Option Text}
    {rest : Parsed → Except Failure α} (hSource : IsLenient source) (hRest : ∀ p, IsLenient (rest p)) :
    (source >>= fun p => Parsed.checkDialect (declared p) >>= fun _ => rest p) = .error (.unsupportedDraft t) ↔
      ∃ p, source = .ok p ∧ Parsed.Refuses (declared p) t := by
  cases hRun : source with
  | error f =>
      refine ⟨fun hFails => absurd (hRun.trans (congrArg _ (Except.error.inj hFails))) (hSource t), ?_⟩
      rintro ⟨p, hOk, -⟩
      cases hOk
  | ok p =>
      refine (checkDialect_bind_iff (hRest p)).trans ⟨fun hRefuses => ⟨p, rfl, hRefuses⟩, ?_⟩
      rintro ⟨q, hOk, hRefuses⟩
      obtain rfl := Except.ok.inj hOk
      exact hRefuses

/-- With directories the gate stands before the scan. -/
theorem readWithDirectories_cons (fs : Files) (offline : Bool) (dir : Text) (dirs : List Text) (bs : Bytes) :
    readWithDirectories fs offline (dir :: dirs) bs = Parsed.read true bs >>= fun p =>
      Parsed.checkDialect p.declared >>= fun _ =>
        Index.scan fs (dir :: dirs) (if p.id.isEmpty then .empty else ⟨[p.entry]⟩) >>= fun ix =>
          ofEntries p ix.entries := by
  unfold readWithDirectories readSeed
  rw [List.isEmpty_cons, if_neg (by decide), bind_assoc]
  refine congrArg _ (funext fun p => ?_)
  rw [bind_assoc]
  rfl

/-- With an index the gate sees what stands in for a missing declaration. -/
theorem readWithIndex_eq (ix : Index) (given : Option Text) (bs : Bytes) :
    readWithIndex ix given bs = Parsed.read true bs >>= fun p =>
      Parsed.checkDialect (Parsed.standIn p.declared given) >>= fun _ =>
        ofEntries { p with declared := Parsed.standIn p.declared given } ix.sorted := by
  unfold readWithIndex
  refine congrArg _ (funext fun p => ?_)
  obtain ⟨document, id, normalized, declared⟩ := p
  cases declared with
  | some t => rfl
  | none =>
      cases given with
      | none => rfl
      | some t => cases t <;> rfl

/-- However a schema is compiled, by itself, with directories or with an index, it is refused for its dialect
exactly if it can be read and its root declares a text that names no supported dialect. Whether the
declaration is taken away on reading makes no difference, nor does anything but the declaration: a schema
that is refused is refused for all directories and indexes, and no directory is scanned for it. What is
given along with an index counts only where a declaration is missing and something is given. -/
theorem unsupportedDraft_iff (bs : Bytes) (t : Text) :
    (∀ offline, read offline true bs = .error (.unsupportedDraft t) ↔
      (∃ p, Parsed.read offline bs = .ok p) ∧ Parsed.Refuses (Parsed.rootDeclaration bs) t) ∧
    (∀ fs offline dirs, readWithDirectories fs offline dirs bs = .error (.unsupportedDraft t) ↔
      (∃ p, Parsed.read (offline || !dirs.isEmpty) bs = .ok p) ∧ Parsed.Refuses (Parsed.rootDeclaration bs) t) ∧
    (∀ ix given, readWithIndex ix given bs = .error (.unsupportedDraft t) ↔
      (∃ p, Parsed.read true bs = .ok p) ∧
        Parsed.Refuses (Parsed.standIn (Parsed.rootDeclaration bs) given) t) ∧
    (Parsed.Refuses (Parsed.rootDeclaration bs) t → ∀ fs dirs, directoryEvents fs dirs bs = []) := by
  have hAlone : ∀ offline, read offline true bs = .error (.unsupportedDraft t) ↔
      (∃ p, Parsed.read offline bs = .ok p) ∧ Parsed.Refuses (Parsed.rootDeclaration bs) t := fun offline =>
    (bind_checkDialect_iff (Parsed.isLenient_read offline bs) fun p => isLenient_ofParsed p []).trans
      (Parsed.refuses_read_iff fun declared => declared)
  refine ⟨hAlone, fun fs offline dirs => ?_, fun ix given => ?_, fun hRefuses fs dirs => ?_⟩
  · cases dirs with
    | nil =>
        rw [List.isEmpty_nil, Bool.not_true, Bool.or_false]
        exact hAlone offline
    | cons dir dirs =>
        rw [List.isEmpty_cons, Bool.not_false, Bool.or_true, readWithDirectories_cons]
        exact (bind_checkDialect_iff (Parsed.isLenient_read true bs) fun p =>
          (Index.isLenient_scan _ _ _ _).bind fun ix => isLenient_ofParsed _ _).trans
          (Parsed.refuses_read_iff fun declared => declared)
  · rw [readWithIndex_eq]
    exact (bind_checkDialect_iff (Parsed.isLenient_read true bs) fun p => isLenient_ofParsed _ _).trans
      (Parsed.refuses_read_iff (Parsed.standIn · given))
  · unfold directoryEvents
    split
    · next p seed hSeed =>
        obtain ⟨hRead, hGate, -⟩ := readSeed_ok hSeed
        rw [Parsed.rootDeclaration_of_read hRead] at hRefuses
        rw [Parsed.checkDialect_eq_error_iff.mpr ⟨t, hRefuses, rfl⟩] at hGate
        cases hGate
    · rfl

/-- A schema in the oldest dialect. -/
def oldestSchema : Bytes := Text.utf8 "$schema: http://json-schema.org/draft-04/schema#"

theorem unsupportedDraft_iff_oldestSchema : ∃ t, Parsed.Refuses (Parsed.rootDeclaration oldestSchema) t ∧
    (∀ offline, read offline true oldestSchema = .error (.unsupportedDraft t)) ∧
    (∀ fs offline dirs, readWithDirectories fs offline dirs oldestSchema = .error (.unsupportedDraft t)) ∧
    (∀ ix given, readWithIndex ix given oldestSchema = .error (.unsupportedDraft t)) ∧
    ∀ fs dirs, directoryEvents fs dirs oldestSchema = [] := by
  have hText : (Parsed.rootDeclaration oldestSchema).any (fun t =>
      !Text.contains "draft-07" t && !Text.contains "2020-12" t) = true := by decide +kernel
  have hStripped : (Parsed.read true oldestSchema).isOk = true := by decide +kernel
  have hWhole : (Parsed.read false oldestSchema).isOk = true := by decide +kernel
  obtain ⟨t, hDeclared, hNone⟩ := (Option.any_eq_true ..).mp hText
  simp only [Bool.and_eq_true, Bool.not_eq_true', ← Bool.not_eq_true, Text.contains_iff] at hNone
  have hRefuses : Parsed.Refuses (Parsed.rootDeclaration oldestSchema) t := ⟨hDeclared, hNone.1, hNone.2⟩
  have hRead : ∀ strip, ∃ p, Parsed.read strip oldestSchema = .ok p := by
    intro strip
    cases strip
    · exact exists_of_isOk hWhole
    · exact exists_of_isOk hStripped
  obtain ⟨hAlone, hDirectories, hIndex, hEvents⟩ := unsupportedDraft_iff oldestSchema t
  refine ⟨t, hRefuses, fun offline => (hAlone offline).mpr ⟨hRead offline, hRefuses⟩,
    fun fs offline dirs => (hDirectories fs offline dirs).mpr ⟨hRead _, hRefuses⟩,
    fun ix given => (hIndex ix given).mpr ⟨hRead true, ?_⟩, hEvents hRefuses⟩
  rw [hDeclared, Parsed.standIn, Option.some_or, ← hDeclared]
  exact hRefuses

end Compiled
end Conform.Schema
