import Conform.Proofs.Schema.Racing

/-! Catalogs that hold what their provider gives. A schema is read from the same bytes whether it was entered
with all others, when it was first asked for, or after it could not be read once. So it makes no difference to
any answer whether and when a catalog was populated. -/
namespace Conform.Schema.Catalog

/-- The path that a provider lists for a name, or the one that a name has which is not listed. -/
def pathFor (p : Provider) (name : Text) : Text := pathAmong (discover p.named) name

/-- The schema that a provider gives under a name, or why it gives none. -/
def provided (p : Provider) (offline : Bool) (name : Text) : Except Failure Compiled :=
  match p.get? (pathFor p name) with
  | none => .error (.schemaNotFound name (pathFor p name))
  | some bs => Compiled.read offline true bs

/-- Whether a catalog says nothing that its provider does not say. -/
structure Mirrors (p : Provider) (offline : Bool) (c : Catalog) : Prop where
  compiled : ∀ name s, c.compiled.lookup name = some s → provided p offline name = .ok s
  paths : ∀ name path, c.paths.lookup name = some path → path = pathFor p name
  discovered : ∀ known, c.discovered = some known → known = discover p.named

variable {p : Provider} {offline : Bool} {c : Catalog} {name path : Text} {s : Compiled} {bs : Bytes}

theorem provided_of_bytes (offline : Bool) (hBytes : p.get? (pathFor p name) = some bs) :
    provided p offline name = Compiled.read offline true bs := by
  simp [provided, hBytes]

theorem mirrors_empty (p : Provider) (offline : Bool) : Mirrors p offline empty := ⟨nofun, nofun, nofun⟩

namespace Mirrors

/-- A schema that comes from the provider is entered, and it is what stands under its name then. -/
theorem enter (h : Mirrors p offline c) (hSchema : provided p offline name = .ok s) :
    Mirrors p offline (c.enter name (pathFor p name) s).1 ∧ (c.enter name (pathFor p name) s).2 = s := by
  have hAfter : Mirrors p offline (c.enter name (pathFor p name) s).1 := by
    refine ⟨fun other t hHere => ?_, fun other path hHere => ?_, fun known hKnown => h.discovered known ?_⟩
    · rcases Register.lookup_of_enter hHere with hBefore | ⟨rfl, rfl⟩
      · exact h.compiled other t hBefore
      · exact hSchema
    · have hPaths : (c.enter name (pathFor p name) s).1.paths =
          if c.paths.any (·.1 == name) then c.paths else c.paths ++ [(name, pathFor p name)] := by
        unfold Register.enter
        cases c.compiled.lookup name <;> rfl
      rw [hPaths] at hHere
      split at hHere
      · exact h.paths other path hHere
      · rw [List.lookup_append] at hHere
        rcases Option.or_eq_some_iff.mp hHere with hBefore | ⟨-, hNew⟩
        · exact h.paths other path hBefore
        · obtain ⟨rfl, rfl⟩ : other = name ∧ path = pathFor p name := by simpa using mem_of_lookup hNew
          rfl
    · rw [← hKnown]
      unfold Register.enter
      cases c.compiled.lookup name <;> rfl
  refine ⟨hAfter, ?_⟩
  have hEntered := hAfter.compiled name _ (Register.lookup_enter c name (pathFor p name) s)
  exact Except.ok.inj (hEntered.symm.trans hSchema)

/-- The names of the provider may be noted at any time. -/
theorem know (h : Mirrors p offline c) : Mirrors p offline { c with discovered := some (discover p.named) } :=
  ⟨h.compiled, h.paths, fun _ hKnown => (Option.some.inj hKnown).symm⟩

theorem getD_discovered (h : Mirrors p offline c) : c.discovered.getD (discover p.named) = discover p.named := by
  cases hKnown : c.discovered with
  | none => rfl
  | some known => exact h.discovered known hKnown

theorem note (h : Mirrors p offline c) : Mirrors p offline (c.note (discover p.named)) := by
  have hSame : c.note (discover p.named) = { c with discovered := some (discover p.named) } := by
    rw [Register.note, h.getD_discovered]
  exact hSame ▸ h.know

theorem pathOf (h : Mirrors p offline c) (name : Text) :
    Mirrors p offline (Catalog.pathOf p c name).1 ∧ (Catalog.pathOf p c name).2 = pathFor p name := by
  unfold Catalog.pathOf
  cases hPath : c.paths.lookup name with
  | some path => exact ⟨h, h.paths name path hPath⟩
  | none =>
      dsimp only
      rw [h.getD_discovered]
      exact ⟨h.note, rfl⟩

/-- A schema is what the provider gives, whether it stands in the catalog already or is read now. -/
theorem get (h : Mirrors p offline c) (name : Text) :
    Mirrors p offline (Catalog.get p offline c name).1 ∧
      (Catalog.get p offline c name).2 = provided p offline name := by
  unfold Catalog.get
  cases hHere : c.compiled.lookup name with
  | some s => exact ⟨h, (h.compiled name s hHere).symm⟩
  | none =>
      obtain ⟨hPathOf, hPath⟩ := h.pathOf name
      dsimp only
      rw [hPath]
      cases hBytes : p.get? (pathFor p name) with
      | none => exact ⟨hPathOf, by simp [provided, hBytes]⟩
      | some bs =>
          have hProvided := provided_of_bytes offline hBytes
          dsimp only
          cases hRead : Compiled.read offline true bs with
          | error f => exact ⟨hPathOf, (hProvided.trans hRead).symm⟩
          | ok s =>
              obtain ⟨hAfter, hEntered⟩ := hPathOf.enter (hProvided.trans hRead)
              exact ⟨hAfter, (congrArg Except.ok hEntered).trans (hProvided.trans hRead).symm⟩

end Mirrors

/-! ### What is listed -/

/-- Names that are all different are kept with their paths. -/
theorem discover_of_nodup {named : List (Text × Text)} (h : (named.map Prod.fst).Nodup) : discover named = named := by
  unfold discover
  suffices hRun : ∀ acc, ((acc ++ named).map Prod.fst).Nodup →
      named.foldl (fun acc n => acc.filter (·.1 != n.1) ++ [n]) acc = acc ++ named from hRun [] h
  clear h
  induction named with
  | nil => simp
  | cons n rest ih =>
      intro acc hAll
      have hFresh : acc.filter (·.1 != n.1) = acc := by
        apply List.filter_eq_self.mpr
        intro e hMem
        simp only [List.map_append, List.map_cons, List.nodup_append] at hAll
        exact bne_iff_ne.mpr (hAll.2.2 _ (List.mem_map_of_mem hMem) _ List.mem_cons_self)
      rw [List.foldl_cons, hFresh, ih (acc ++ [n]) (by simpa using hAll)]
      simp

section Listed

variable (hNames : (p.named.map Prod.fst).Nodup) (hPaths : ∀ e ∈ p.named, e.2 ≠ [])

include hNames hPaths

theorem pathFor_of_mem (hMem : (name, path) ∈ p.named) : pathFor p name = path := by
  have hLookup : p.named.lookup name = some path := lookup_of_mem hNames hMem
  simp [pathFor, discover_of_nodup hNames, pathAmong, hLookup, hPaths _ hMem]

/-- Entering what is listed enters what the provider gives, also if one of the schemas ends it. -/
theorem Mirrors.populateAll {rest : List (Text × Text)} (hListed : rest ⊆ p.named) (count : Nat)
    (h : Mirrors p offline c) : Mirrors p offline (populateAll p offline rest c count).1 := by
  induction rest generalizing c count with
  | nil => exact h
  | cons e rest ih =>
      obtain ⟨name, path⟩ := e
      obtain ⟨hHere, hRest⟩ := List.cons_subset.mp hListed
      obtain rfl : pathFor p name = path := pathFor_of_mem hNames hPaths hHere
      rw [Catalog.populateAll, populateOne]
      cases hBytes : p.get? (pathFor p name) with
      | none => exact ih hRest count h
      | some bs =>
          dsimp only
          cases hRead : Compiled.read offline true bs with
          | ok s => exact ih hRest (count + 1) (h.enter ((provided_of_bytes offline hBytes).trans hRead)).1
          | error f =>
              cases hDomain : f.isDomain with
              | true =>
                  simp only [hDomain, if_true]
                  exact ih hRest count h
              | false =>
                  simp only [hDomain, Bool.false_eq_true, if_false]
                  exact h

theorem Mirrors.populate (h : Mirrors p offline c) : Mirrors p offline (populate p offline c).1 := by
  have hEntered := h.populateAll hNames hPaths (List.Subset.refl p.named) 0
  unfold Catalog.populate
  split
  · next hAll => exact (hAll ▸ hEntered).know
  · exact hEntered

end Listed

/-! ### Requests one after the other -/

/-- Something that is asked of a catalog. -/
inductive Request where
  | get (name : Text)
  | populate

namespace Request

def isGet : Request → Bool
  | get _ => true
  | populate => false

/-- The answer to a request for a schema, by the provider alone. -/
def provided? (p : Provider) (offline : Bool) : Request → Option (Except Failure Compiled)
  | get name => some (provided p offline name)
  | populate => none

end Request

/-- The catalog after a request. -/
def after (p : Provider) (offline : Bool) (c : Catalog) : Request → Catalog
  | .get name => (Catalog.get p offline c name).1
  | .populate => (populate p offline c).1

/-- What comes of requests that are made one after the other: for each that asks for a schema this schema, or
why there is none. -/
def answers (p : Provider) (offline : Bool) : Catalog → List Request → List (Except Failure Compiled)
  | _, [] => []
  | c, .get name :: rest => (Catalog.get p offline c name).2 :: answers p offline (after p offline c (.get name)) rest
  | c, .populate :: rest => answers p offline (after p offline c .populate) rest

theorem Mirrors.after (hNames : (p.named.map Prod.fst).Nodup) (hPaths : ∀ e ∈ p.named, e.2 ≠ [])
    (h : Mirrors p offline c) (request : Request) : Mirrors p offline (after p offline c request) := by
  cases request with
  | get name => exact (h.get name).1
  | populate => exact h.populate hNames hPaths

/-- Requests are answered by what the provider gives, whichever requests came before. -/
theorem Mirrors.answers (hNames : (p.named.map Prod.fst).Nodup) (hPaths : ∀ e ∈ p.named, e.2 ≠ [])
    (h : Mirrors p offline c) (requests : List Request) :
    answers p offline c requests = requests.filterMap (Request.provided? p offline) := by
  induction requests generalizing c with
  | nil => rfl
  | cons request rest ih =>
      have hRest := ih (h.after hNames hPaths request)
      cases request with
      | get name =>
          rw [Catalog.answers, hRest, (h.get name).2, List.filterMap_cons_some]
          rfl
      | populate =>
          rw [Catalog.answers, hRest, List.filterMap_cons_none]
          rfl

theorem Request.filterMap_filter_isGet (requests : List Request) :
    (requests.filter isGet).filterMap (provided? p offline) = requests.filterMap (provided? p offline) := by
  rw [List.filterMap_filter]
  congr 1
  funext request
  cases request <;> rfl

/-- Populating a catalog between requests changes none of their answers: each is what the provider gives under
the name, compiled from the same bytes or refused for the same reason. -/
theorem answers_filter_isGet (hNames : (p.named.map Prod.fst).Nodup) (hPaths : ∀ e ∈ p.named, e.2 ≠ [])
    (requests : List Request) :
    answers p offline empty (requests.filter Request.isGet) = answers p offline empty requests ∧
      answers p offline empty requests = requests.filterMap (Request.provided? p offline) := by
  have hAnswers := (mirrors_empty p offline).answers hNames hPaths
  refine ⟨?_, hAnswers requests⟩
  rw [hAnswers, hAnswers, Request.filterMap_filter_isGet]

/-- A provider that lists a schema, one that cannot be read and one that is not there, and that has another
under a name which it does not list. -/
def patchy : Provider where
  get? path :=
    if path == "a.yaml" || path == fallbackPath "dates" then some Batch.anything
    else if path == "torn.yaml" then some (Text.utf8 "[")
    else none
  named := [("torn", "torn.yaml"), ("a", "a.yaml"), ("gone", "gone.yaml")]

def inTurn : List Request :=
  [.get "torn", .get "dates", .populate, .get "a", .get "torn", .get "gone", .populate, .get "dates"]

/-- What is listed is entered twice, and no answer tells it. -/
theorem answers_filter_isGet_patchy :
    (populate patchy true empty).2.toOption = some 1 ∧
      answers patchy true empty (inTurn.filter Request.isGet) = answers patchy true empty inTurn ∧
      (answers patchy true empty inTurn).map (·.isOk) = [false, true, true, false, false, true] := by
  have hAnswers := @answers_filter_isGet patchy true (by decide) (by decide) inTurn
  refine ⟨by decide +kernel, hAnswers.1, ?_⟩
  rw [hAnswers.2]
  decide +kernel

end Conform.Schema.Catalog

/-! ### Calls that race

A catalog that says nothing which its provider does not say stays so, however many calls come in between each other,
and every call is answered as if it were the only one. -/

namespace Conform.Schema.Sharing

open Catalog (Mirrors pathFor provided)

/-- Whether a call that asks for one schema holds what the provider gives for it. -/
def Point.Told (p : Provider) (offline : Bool) : Point → Prop
  | seek .. | locate .. | consult .. | ask .. => True
  | note _ _ known => known = Catalog.discover p.named
  | read (.one _) name path => path = pathFor p name
  | compile (.one _) name path bs => path = pathFor p name ∧ p.get? path = some bs
  | enter (.one _) name path copy => path = pathFor p name ∧ provided p offline name = .ok copy.schema
  | check name _ copy => provided p offline name = .ok copy.schema
  | read .. | compile .. | enter .. | list | close .. => False

/-- Whether a call is answered from what the provider gives under its name. -/
def Served (p : Provider) (offline : Bool) : Call → Except Failure Answer → Prop
  | .schema name data, r =>
    ∃ x : Except Failure Copy, r = x.bind (answer data) ∧ x.map Copy.schema = provided p offline name
  | .populate, _ => False

/-- Whether a call goes on as the provider demands. -/
def Next.Told (p : Provider) (offline : Bool) (call : Call) : Next → Prop
  | .inl q => q.call = call ∧ q.Told p offline
  | .inr r => Served p offline call r

variable {p : Provider} {offline : Bool} {x : Shared} {q : Point} {name : Text} {data : Option Document} {copy : Copy}
  {f : Failure}

theorem told_having (h : provided p offline name = .ok copy.schema) :
    Next.Told p offline (.schema name data) ((Errand.one data).having name copy) := by
  cases data with
  | none => exact ⟨.ok copy, rfl, h.symm⟩
  | some d => exact ⟨rfl, h⟩

theorem told_lacking (h : provided p offline name = .error f) :
    Next.Told p offline (.schema name data) ((Errand.one data).lacking f) :=
  ⟨.error f, rfl, h.symm⟩

/-- A step leaves a catalog as it should be. -/
theorem mirrors_change (h : Mirrors p offline (plain x)) (hTold : q.Told p offline) (time : Nat) :
    Mirrors p offline (plain ⟨q.change x, time⟩) := by
  cases q with
  | note name data known =>
      obtain rfl : known = Catalog.discover p.named := hTold
      exact h.note
  | enter errand name path copy =>
      cases errand with
      | all => exact hTold.elim
      | one data =>
          obtain ⟨rfl, hProvided⟩ := hTold
          have hAfter : plain ⟨(x.catalog.enter name (pathFor p name) copy).1, time⟩ =
              ((plain x).enter name (pathFor p name) copy.schema).1 := by
            rw [plain, plain, Register.enter_map]
          exact hAfter ▸ (h.enter hProvided).1
  | close => exact hTold.elim
  | _ => exact h

/-- Wherever a call is, its next step is what the provider demands. -/
theorem told_goOn (h : Mirrors p offline (plain x)) (hTold : q.Told p offline) :
    Next.Told p offline q.call (q.goOn ⟨p, offline⟩ x) := by
  cases q with
  | seek name data =>
      rw [Point.goOn]
      split
      · next copy hBound =>
          refine told_having (h.compiled name copy.schema ?_)
          rw [lookup_plain, hBound]
          rfl
      · exact ⟨rfl, trivial⟩
  | locate name data =>
      rw [Point.goOn]
      split
      · next path hPath => exact ⟨rfl, h.paths name path hPath⟩
      · exact ⟨rfl, trivial⟩
  | consult name data =>
      rw [Point.goOn]
      split
      · next known hKnown =>
          obtain rfl := h.discovered known hKnown
          exact ⟨rfl, rfl⟩
      · exact ⟨rfl, trivial⟩
  | ask name data => exact ⟨rfl, rfl⟩
  | note name data known =>
      obtain rfl : known = Catalog.discover p.named := hTold
      exact ⟨rfl, rfl⟩
  | read errand name path =>
      cases errand with
      | all => exact hTold.elim
      | one data =>
          obtain rfl : path = pathFor p name := hTold
          rw [Point.goOn]
          split
          · next bs hBytes => exact ⟨rfl, rfl, hBytes⟩
          · next hNone =>
              apply told_lacking
              rw [provided, hNone]
  | compile errand name path bs =>
      cases errand with
      | all => exact hTold.elim
      | one data =>
          obtain ⟨rfl, hBytes⟩ := hTold
          have hProvided := Catalog.provided_of_bytes offline hBytes
          rw [Point.goOn]
          split
          · next hRead => exact ⟨rfl, rfl, hProvided.trans hRead⟩
          · next hRead => exact told_lacking (hProvided.trans hRead)
  | enter errand name path copy =>
      cases errand with
      | all => exact hTold.elim
      | one data =>
          obtain ⟨rfl, hProvided⟩ := hTold
          have hStands : ((plain x).enter name (pathFor p name) copy.schema).2 =
              (x.catalog.enter name (pathFor p name) copy).2.schema := by
            rw [plain, Register.enter_map]
          have hEntered := (h.enter hProvided).2
          refine told_having (hProvided.trans (congrArg Except.ok ?_))
          rw [← hStands, hEntered]
  | check name data copy =>
      have hProvided : provided p offline name = .ok copy.schema := hTold
      exact ⟨.ok copy, rfl, hProvided.symm⟩
  | list => exact hTold.elim
  | close => exact hTold.elim

end Conform.Schema.Sharing
