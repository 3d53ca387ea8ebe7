import Conform.Schema.Meta

/-! The schemas of schemas, spelled by characters. A text in quotes is taken apart through its bytes, which takes long
where all texts of the schemas are asked for something. Compared with its characters it is at once, so what is to be
tested are the same schemas with lists of characters. -/
namespace Conform.Schema

namespace Meta

/-- The schemas among documents that name themselves, under their names. -/
def resourcesOf (ds : List Document) : List (Text × Resource) :=
  ds.filterMap fun d =>
    let r := Resource.ofDocument .draft2020 d
    r.id?.map (·, r)

/-- Such schemas under their names, looked through. -/
def shelfOf (ds : List Document) : Shelf :=
  let entered := (resourcesOf ds).foldl (fun s r => s.insert r.1 r.2) Shelf.empty
  (entered.exploreAll ((resourcesOf ds).map (·.1))).getD entered

theorem resourcesOf_documents : resourcesOf documents = resources := rfl

theorem shelfOf_documents : shelfOf documents = shelf := rfl

variable {cs : List Char} {d d' : Document} {ds ds' : List Document} {ms : List (String × Document)} {xs : Members}
  {ws : List String}

theorem ofString_ofList (cs : List Char) : Text.ofString (String.ofList cs) = Text.ofChars cs := by
  simp [Text.ofString, Text.ofChars]

theorem string_ofList : Document.string (String.ofList cs) = .text (Text.ofChars cs) := congrArg _ (ofString_ofList cs)

/-- A text that is put together need not be spelled: these are comments. -/
theorem string_append (s t : String) : Document.string (s ++ t) = .text (Text.ofString (s ++ t)) := rfl

theorem record_nil : Document.record [] = .object [] := rfl

theorem record_cons (h : d = d') (hRest : Document.record ms = .object xs) :
    Document.record ((String.ofList cs, d) :: ms) = .object ((Text.ofChars cs, d') :: xs) := by
  obtain rfl := Document.object.inj hRest
  rw [← h, Document.record, List.map_cons, ofString_ofList]

theorem list_congr (h : ds = ds') : Document.list ds = .list ds' := congrArg _ h

theorem cons_congr (h : d = d') (hRest : ds = ds') : d :: ds = d' :: ds' := by rw [h, hRest]

theorem words_nil : words [] = .list [] := rfl

theorem words_cons (hRest : words ws = .list ds) :
    words (String.ofList cs :: ws) = .list (.text (Text.ofChars cs) :: ds) := by
  obtain rfl := Document.list.inj hRest
  rw [words, List.map_cons, string_ofList]

theorem ref_ofList : ref (String.ofList cs) = .object [(Text.ofChars ['$', 'r', 'e', 'f'], .text (Text.ofChars cs))] :=
  record_cons string_ofList record_nil

theorem typed_ofList :
    typed (String.ofList cs) = .object [(Text.ofChars ['t', 'y', 'p', 'e'], .text (Text.ofChars cs))] :=
  record_cons string_ofList record_nil

/-- All schemas of schemas, with lists of characters for their texts. -/
noncomputable def spelled : { ds : List Document // documents = ds } := by
  apply Subtype.mk
  unfold documents draft4 draft6 draft7 schema2019 core2019 applicator2019 validation2019 metaData2019 format2019
    content2019 schema2020 core2020 applicator2020 unevaluated2020 validation2020 metaData2020 formatAnnotation2020
    formatAssertion2020 content2020 around whole
  -- Each step compares a text in quotes with a list of characters that is still open, which gives the list.
  repeat' first
    | apply cons_congr
    | apply record_nil
    | apply record_cons
    | apply list_congr
    | apply words_nil
    | apply words_cons
    | apply ref_ofList
    | apply typed_ofList
    | with_reducible apply string_append
    | apply string_ofList
    | rfl

theorem resources_spelled : resources = resourcesOf spelled.1 :=
  resourcesOf_documents.symm.trans (congrArg resourcesOf spelled.2)

theorem metaRoot_eq (d : Dialect) : d.metaRoot = Resolver.ofRoot (.ofLibrary d []) ⟨d, d.meta⟩ := by
  cases d <;> rfl

end Meta

namespace Dialect

/-- The place of a dialect's schema of schemas among all of them. -/
def place : Dialect → Nat
  | draft4 => 0
  | draft6 => 1
  | draft7 => 2
  | draft2019 => 3
  | draft2020 => 10

/-- A dialect's schema of schemas, taken from all of them. -/
def metaAmong (ds : List Document) (d : Dialect) : Document := ds.getD d.place .null

theorem meta_spelled (d : Dialect) : d.meta = d.metaAmong Meta.spelled.1 := by
  have hAmong : d.meta = d.metaAmong Meta.documents := by cases d <;> rfl
  exact hAmong.trans (congrArg (metaAmong · d) Meta.spelled.2)

end Dialect
end Conform.Schema
