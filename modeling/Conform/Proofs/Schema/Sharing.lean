import Conform.Proofs.Except
import Conform.Proofs.Lookup
import Conform.Proofs.Pool
import Conform.Schema.Catalog

/-! Catalogs that are used by several calls at the same time. A call looks for a schema without a lock, reads and
compiles it without one, and takes the lock only to enter it. So two calls may compile one schema twice. The first
that is entered stays, and all calls come away with that one. -/
namespace Conform.Schema

/-- A compiled schema as a thing of its own. Two of them are different if they were compiled at different times,
also if they are compiled from the same text. -/
structure Copy where
  /-- When it was compiled. -/
  time : Nat
  schema : Compiled

namespace Register

variable {σ τ : Type} {f : σ → τ}

/-- The register with something else in place of what stands under names. -/
def map (f : σ → τ) (c : Register σ) : Register τ := ⟨c.compiled.map fun e => (e.1, f e.2), c.paths, c.discovered⟩

theorem enter_map (f : σ → τ) (c : Register σ) (name path : Text) (s : σ) :
    (c.map f).enter name path (f s) = ((c.enter name path s).1.map f, f (c.enter name path s).2) := by
  unfold enter
  dsimp only [map]
  rw [lookup_map]
  cases c.compiled.lookup name with
  | some old => rfl
  | none =>
      simp only [List.map_append, List.map_cons, List.map_nil]
      rfl

end Register

namespace Sharing

/-- What is asked of a catalog. -/
inductive Call where
  /-- The schema with a name, or the report on data that are validated against it. -/
  | schema (name : Text) (data : Option Document)
  /-- That all schemas be entered. -/
  | populate

inductive Answer where
  | schema (copy : Copy)
  | report (copy : Copy) (r : Report)
  /-- How many schemas could be compiled. -/
  | count (n : Nat)

/-- What a schema is compiled for. -/
inductive Errand where
  /-- For a call that asks for it, with the data that are to be validated. -/
  | one (data : Option Document)
  /-- For a call that enters all schemas: those that are left, all that were listed, and how many were compiled. -/
  | all (rest listed : List (Text × Text)) (count : Nat)

/-- Where a call is between two of its steps. -/
inductive Point where
  /-- The catalog is to be looked into. -/
  | seek (name : Text) (data : Option Document)
  /-- The name is not in the catalog, so its path is to be looked for. -/
  | locate (name : Text) (data : Option Document)
  /-- The path is not there either, so the known names are to be looked into. -/
  | consult (name : Text) (data : Option Document)
  /-- No names are known, so the provider is to be asked for them. -/
  | ask (name : Text) (data : Option Document)
  /-- The provider has told its names. -/
  | note (name : Text) (data : Option Document) (known : List (Text × Text))
  /-- A schema is to be taken from the provider. -/
  | read (errand : Errand) (name path : Text)
  | compile (errand : Errand) (name path : Text) (bs : Bytes)
  /-- A schema has been compiled and is to be entered. -/
  | enter (errand : Errand) (name path : Text) (copy : Copy)
  /-- There is a schema, and data are to be validated. -/
  | check (name : Text) (data : Document) (copy : Copy)
  /-- The provider is to be asked for all schemas. -/
  | list
  /-- All schemas have been gone through. -/
  | close (listed : List (Text × Text)) (count : Nat)

/-- What all calls share: the catalog, and the time that has passed, in steps. -/
structure Shared where
  catalog : Register Copy
  time : Nat

/-- What a step finds outside of the catalog. -/
structure Surroundings where
  provider : Provider
  offline : Bool

/-- Where a call goes on, or what comes of it. -/
abbrev Next := Point ⊕ Except Failure Answer

def Call.first : Call → Point
  | schema name data => .seek name data
  | populate => .list

namespace Errand

/-- Goes on with the schemas that are left to enter. -/
def forward (rest listed : List (Text × Text)) (count : Nat) : Next :=
  match rest with
  | [] => .inl (.close listed count)
  | (name, path) :: rest => .inl (.read (.all rest listed count) name path)

/-- Goes on with the schema that stands under a name. -/
def having (name : Text) (copy : Copy) : Errand → Next
  | one none => .inr (.ok (.schema copy))
  | one (some data) => .inl (.check name data copy)
  | all rest listed count => forward rest listed (count + 1)

/-- Goes on without the schema. When all are entered, those that cannot be read are passed over. -/
def lacking (f : Failure) : Errand → Next
  | one _ => .inr (.error f)
  | all rest listed count => if f.isDomain then forward rest listed count else .inr (.error f)

end Errand

namespace Point

/-- The catalog after a step. Only three steps change it, each under the lock. -/
def change (x : Shared) : Point → Register Copy
  | note _ _ known => x.catalog.note known
  | enter _ name path copy => (x.catalog.enter name path copy).1
  | close listed _ => { x.catalog with discovered := some (Catalog.discover listed) }
  | _ => x.catalog

/-- Where a call goes on after a step. -/
def goOn (here : Surroundings) (x : Shared) : Point → Next
  | seek name data =>
    match x.catalog.compiled.lookup name with
    | some copy => (Errand.one data).having name copy
    | none => .inl (.locate name data)
  | locate name data =>
    match x.catalog.paths.lookup name with
    | some path => .inl (.read (.one data) name path)
    | none => .inl (.consult name data)
  | consult name data =>
    match x.catalog.discovered with
    | some known => .inl (.read (.one data) name (Catalog.pathAmong known name))
    | none => .inl (.ask name data)
  | ask name data => .inl (.note name data (Catalog.discover here.provider.named))
  | note name data known => .inl (.read (.one data) name (Catalog.pathAmong known name))
  | read errand name path =>
    match here.provider.get? path with
    | some bs => .inl (.compile errand name path bs)
    | none => errand.lacking (.schemaNotFound name path)
  | compile errand name path bs =>
    match Compiled.read here.offline true bs with
    | .ok s => .inl (.enter errand name path ⟨x.time, s⟩)
    | .error f => errand.lacking f
  | enter errand name path copy => errand.having name (x.catalog.enter name path copy).2
  | check _ data copy => .inr ((copy.schema.validate data).map (.report copy))
  | list => Errand.forward here.provider.named here.provider.named 0
  | close _ count => .inr (.ok (.count count))

end Point

/-- What a thread does with a call. What it finds outside of the catalog may be something else at every time. -/
def worker (world : Nat → Surroundings) : Pool.Worker Call Shared Point Failure Answer where
  first := Call.first
  step _ x p := (⟨p.change x, x.time + 1⟩, p.goOn (world x.time) x)

/-! ### Calls that nobody comes in between -/

/-- What a call makes of the schema that it has come away with. -/
def answer (data : Option Document) (copy : Copy) : Except Failure Answer :=
  match data with
  | none => .ok (.schema copy)
  | some d => (copy.schema.validate d).map (.report copy)

/-- The catalog without regard to when its schemas were compiled. -/
def plain (x : Shared) : Catalog := x.catalog.map Copy.schema

variable {p : Provider} {offline c : Bool} {x : Shared} {name path : Text} {data : Option Document}

/-- A worker in surroundings that do not change. -/
abbrev steady (p : Provider) (offline : Bool) : Pool.Worker Call Shared Point Failure Answer := worker fun _ => ⟨p, offline⟩

theorem lookup_plain (x : Shared) (name : Text) :
    (plain x).compiled.lookup name = (x.catalog.compiled.lookup name).map Copy.schema := lookup_map ..

theorem completes_next {w : Nat → Surroundings} {q next : Point} {y : Shared} {r : Except Failure Answer}
    (hStep : q.goOn (w x.time) x = .inl next)
    (hRest : (worker w).Completes c ⟨q.change x, x.time + 1⟩ next y r) : (worker w).Completes c x q y r :=
  .next hStep hRest

/-- A call that comes away with a schema comes to its answer. -/
theorem completes_having {w : Nat → Surroundings} {copy : Copy} {q : Point}
    (hStep : q.goOn (w x.time) x = (Errand.one data).having name copy) :
    ∃ y, (worker w).Completes c x q y (answer data copy) ∧ y.catalog = q.change x := by
  cases data with
  | none => exact ⟨_, .last hStep, rfl⟩
  | some d => exact ⟨_, .next hStep (.last rfl), rfl⟩

/-- A call finds the path that the catalog finds, and goes on from there. -/
theorem exists_path (p : Provider) (offline c : Bool) (x : Shared) (name : Text) (data : Option Document) :
    ∃ z path, Catalog.pathOf p (plain x) name = (plain z, path) ∧
      ∀ y r, (steady p offline).Completes c z (.read (.one data) name path) y r →
        (steady p offline).Completes c x (.locate name data) y r := by
  obtain ⟨⟨compiled, paths, discovered⟩, time⟩ := x
  cases hPath : paths.lookup name with
  | some path =>
      refine ⟨⟨⟨compiled, paths, discovered⟩, time + 1⟩, path, ?_, fun y r hRead => ?_⟩
      · simp only [Catalog.pathOf, plain, Register.map, hPath]
      · exact completes_next (by simp only [Point.goOn, hPath]) hRead
  | none =>
      have hPathOf : ∀ known, discovered.getD (Catalog.discover p.named) = known →
          Catalog.pathOf p (plain ⟨⟨compiled, paths, discovered⟩, time⟩) name =
            (plain ⟨⟨compiled, paths, some known⟩, time⟩, Catalog.pathAmong known name) := by
        rintro known rfl
        simp only [Catalog.pathOf, plain, Register.map, hPath]
        cases discovered <;> rfl
      cases discovered with
      | some known =>
          refine ⟨⟨⟨compiled, paths, some known⟩, time + 2⟩, _, hPathOf known rfl, fun y r hRead => ?_⟩
          have hConsult := completes_next (x := ⟨⟨compiled, paths, some known⟩, time + 1⟩) (q := .consult name data) rfl hRead
          exact completes_next (by simp only [Point.goOn, hPath]) hConsult
      | none =>
          let known := Catalog.discover p.named
          refine ⟨⟨⟨compiled, paths, some known⟩, time + 4⟩, _, hPathOf known rfl, fun y r hRead => ?_⟩
          have hNote := completes_next (x := ⟨⟨compiled, paths, none⟩, time + 3⟩) (q := .note name data known) rfl hRead
          have hAsk := completes_next (x := ⟨⟨compiled, paths, none⟩, time + 2⟩) (q := .ask name data) rfl hNote
          have hConsult := completes_next (x := ⟨⟨compiled, paths, none⟩, time + 1⟩) (q := .consult name data) rfl hAsk
          exact completes_next (by simp only [Point.goOn, hPath]) hConsult

/-- A call that is left alone enters a schema as the catalog does. -/
theorem completes_enter (p : Provider) (offline c : Bool) (x : Shared) (name path : Text) (copy : Copy)
    (data : Option Document) : ∃ (y : Shared) (r : Except Failure Copy),
      (steady p offline).Completes c x (.enter (.one data) name path copy) y (r.bind (answer data)) ∧
        ((plain x).enter name path copy.schema).1 = plain y ∧
        r.map Copy.schema = .ok ((plain x).enter name path copy.schema).2 := by
  obtain ⟨y, hDone, hSame⟩ := completes_having (w := fun _ => ⟨p, offline⟩) (c := c) (x := x)
    (q := .enter (.one data) name path copy) rfl
  refine ⟨y, .ok _, hDone, ?_, ?_⟩
  · rw [plain, Register.enter_map, plain, hSame]
    rfl
  · rw [plain, Register.enter_map]
    rfl

/-- A call that is left alone comes to what the catalog gives for its name. -/
theorem completes_seek (p : Provider) (offline c : Bool) (x : Shared) (name : Text) (data : Option Document) :
    ∃ (y : Shared) (r : Except Failure Copy), (steady p offline).Completes c x (.seek name data) y (r.bind (answer data)) ∧
      Catalog.get p offline (plain x) name = (plain y, r.map Copy.schema) := by
  rw [Catalog.get, lookup_plain]
  cases hLookup : x.catalog.compiled.lookup name with
  | some copy =>
      have hStep : (Point.seek name data).goOn ⟨p, offline⟩ x = (Errand.one data).having name copy := by
        simp only [Point.goOn, hLookup]
      obtain ⟨y, hDone, hSame⟩ := completes_having (w := fun _ => ⟨p, offline⟩) hStep
      refine ⟨y, .ok copy, hDone, ?_⟩
      rw [plain, plain, hSame]
      rfl
  | none =>
      obtain ⟨z, path, hPath, hFrom⟩ := exists_path p offline c ⟨x.catalog, x.time + 1⟩ name data
      have hSeek : ∀ y r, (steady p offline).Completes c z (.read (.one data) name path) y r →
          (steady p offline).Completes c x (.seek name data) y r := fun y r hRead =>
        completes_next (by simp only [Point.goOn, hLookup]) (hFrom y r hRead)
      have hPlain : plain ⟨x.catalog, x.time + 1⟩ = plain x := rfl
      dsimp only [Option.map]
      rw [← hPlain, hPath]
      dsimp only
      cases hBytes : p.get? path with
      | none =>
          refine ⟨⟨z.catalog, z.time + 1⟩, .error (.schemaNotFound name path), hSeek _ _ (.last ?_), rfl⟩
          simp only [worker, Point.goOn, hBytes]
          rfl
      | some bs =>
          have hRead : ∀ y r, (steady p offline).Completes c ⟨z.catalog, z.time + 1⟩ (.compile (.one data) name path bs) y r →
              (steady p offline).Completes c x (.seek name data) y r := fun y r hRest =>
            hSeek y r (completes_next (by simp only [Point.goOn, hBytes]) hRest)
          dsimp only
          cases hCompiled : Compiled.read offline true bs with
          | error f =>
              refine ⟨⟨z.catalog, z.time + 2⟩, .error f, hRead _ _ (.last ?_), rfl⟩
              simp only [worker, Point.goOn, hCompiled]
              rfl
          | ok s =>
              obtain ⟨y, r, hDone, hCatalog, hAnswer⟩ :=
                completes_enter p offline c ⟨z.catalog, z.time + 2⟩ name path ⟨z.time + 1, s⟩ data
              refine ⟨y, r, hRead _ _ (completes_next (by simp only [Point.goOn, hCompiled]) hDone), ?_⟩
              rw [← hCatalog, hAnswer]
              rfl

/-- What is left of entering all schemas, and the names that are known after it. -/
def populateRest (p : Provider) (offline : Bool) (listed rest : List (Text × Text)) (c : Catalog) (count : Nat) :
    Catalog × Except Failure Nat :=
  match Catalog.populateAll p offline rest c count with
  | (c, .ok n) => ({ c with discovered := some (Catalog.discover listed) }, .ok n)
  | r => r

theorem completes_forward (p : Provider) (offline c : Bool) {rest listed : List (Text × Text)} {count : Nat} {x : Shared}
    {q : Point} (hStep : q.goOn ⟨p, offline⟩ x = Errand.forward rest listed count) :
    ∃ (y : Shared) (r : Except Failure Nat), (steady p offline).Completes c x q y (r.map .count) ∧
      populateRest p offline listed rest ((q.change x).map Copy.schema) count = (plain y, r) := by
  induction rest generalizing x q count with
  | nil =>
      have hClose := Pool.Worker.Completes.last (w := steady p offline) (c := c) (x := ⟨q.change x, x.time + 1⟩)
        (p := .close listed count) rfl
      exact ⟨_, .ok count, completes_next hStep hClose, rfl⟩
  | cons entry rest ih =>
      obtain ⟨name, path⟩ := entry
      have hFrom : ∀ y r, (steady p offline).Completes c ⟨q.change x, x.time + 1⟩
          (.read (.all rest listed count) name path) y r → (steady p offline).Completes c x q y r := fun y r hRead =>
        completes_next hStep hRead
      unfold populateRest
      rw [Catalog.populateAll, Catalog.populateOne]
      cases hBytes : p.get? path with
      | none =>
          have hPass : (Point.read (.all rest listed count) name path).goOn ⟨p, offline⟩ ⟨q.change x, x.time + 1⟩ =
              Errand.forward rest listed count := by
            simp only [Point.goOn, hBytes]
            rfl
          obtain ⟨y, r, hDone, hSame⟩ := ih hPass
          exact ⟨y, r, hFrom y _ hDone, hSame⟩
      | some bs =>
          have hRead : ∀ y r, (steady p offline).Completes c ⟨q.change x, x.time + 2⟩
              (.compile (.all rest listed count) name path bs) y r → (steady p offline).Completes c x q y r :=
            fun y r hRest => hFrom y r (completes_next (by simp only [Point.goOn, hBytes]) hRest)
          dsimp only
          cases hCompiled : Compiled.read offline true bs with
          | error f =>
              cases hDomain : f.isDomain with
              | false =>
                  have hStop : (Point.compile (.all rest listed count) name path bs).goOn ⟨p, offline⟩
                      ⟨q.change x, x.time + 2⟩ = .inr (.error f) := by
                    simp only [Point.goOn, hCompiled, Errand.lacking, hDomain, Bool.false_eq_true, if_false]
                  exact ⟨_, .error f, hRead _ _ (.last hStop), by simp only [hDomain, Bool.false_eq_true, if_false]; rfl⟩
              | true =>
                  have hPass : (Point.compile (.all rest listed count) name path bs).goOn ⟨p, offline⟩
                      ⟨q.change x, x.time + 2⟩ = Errand.forward rest listed count := by
                    simp only [Point.goOn, hCompiled, Errand.lacking, hDomain, if_true]
                  obtain ⟨y, r, hDone, hSame⟩ := ih hPass
                  refine ⟨y, r, hRead y _ hDone, ?_⟩
                  simp only [hDomain, if_true, Bool.false_eq_true, if_false]
                  exact hSame
          | ok s =>
              have hPass : (Point.enter (.all rest listed count) name path ⟨x.time + 2, s⟩).goOn ⟨p, offline⟩
                  ⟨q.change x, x.time + 3⟩ = Errand.forward rest listed (count + 1) := rfl
              obtain ⟨y, r, hDone, hSame⟩ := ih hPass
              refine ⟨y, r, hRead y _ (completes_next (by simp only [Point.goOn, hCompiled]) hDone), ?_⟩
              have hEnter : ((q.change x).map Copy.schema).enter name path s = _ :=
                Register.enter_map Copy.schema (q.change x) name path ⟨x.time + 2, s⟩
              dsimp only
              rw [hEnter]
              exact hSame

/-- A call that is left alone enters all schemas as the catalog does. -/
theorem completes_list (p : Provider) (offline c : Bool) (x : Shared) :
    ∃ (y : Shared) (r : Except Failure Nat), (steady p offline).Completes c x .list y (r.map .count) ∧
      Catalog.populate p offline (plain x) = (plain y, r) :=
  completes_forward p offline c rfl

/-- A single call does to the catalog what the catalog does when nobody else uses it, and comes to the same. -/
theorem runs_single (pool : Pool) (p : Provider) (offline : Bool) (x : Shared) :
    (∀ name data, ∃ (y : Shared) (r : Except Failure Copy), Catalog.get p offline (plain x) name = (plain y, r.map Copy.schema) ∧
      Pool.Runs pool (steady p offline) (.start false x [.schema name data])
        ⟨false, y, [(.schema name data, .ended ((r.bind (answer data)).mapError .failed))]⟩) ∧
    ∃ (y : Shared) (r : Except Failure Nat), Catalog.populate p offline (plain x) = (plain y, r) ∧
      Pool.Runs pool (steady p offline) (.start false x [.populate])
        ⟨false, y, [(.populate, .ended ((r.map .count).mapError .failed))]⟩ := by
  refine ⟨fun name data => ?_, ?_⟩
  · obtain ⟨y, r, hDone, hSame⟩ := completes_seek p offline false x name data
    exact ⟨y, r, hSame, hDone.runs_start (a := Call.schema name data) pool⟩
  · obtain ⟨y, r, hDone, hSame⟩ := completes_list p offline false x
    exact ⟨y, r, hSame, hDone.runs_start (a := Call.populate) pool⟩

end Sharing
end Conform.Schema
