import Conform.Schema.Meta.Draft2019
import Conform.Schema.Meta.Draft2020
import Conform.Schema.Meta.Drafts
import Conform.Schema.Resolver

/-!
The schemas of schemas that are always at hand.
-/
namespace Conform.Schema

/-- The schema that schemas of a dialect have to conform to. -/
def Dialect.meta : Dialect → Document
  | .draft4 => Meta.draft4
  | .draft6 => Meta.draft6
  | .draft7 => Meta.draft7
  | .draft2019 => Meta.schema2019
  | .draft2020 => Meta.schema2020

namespace Meta

/-- All schemas of schemas, with the parts of those that have parts. -/
def documents : List Document :=
  [draft4, draft6, draft7, schema2019, core2019, applicator2019, validation2019, metaData2019,
    format2019, content2019, schema2020, core2020, applicator2020, unevaluated2020, validation2020,
    metaData2020, formatAnnotation2020, formatAssertion2020, content2020]

/-- The schemas of schemas under their names. -/
def resources : List (Text × Resource) :=
  documents.filterMap fun d =>
    let r := Resource.ofDocument .draft2020 d
    r.id?.map (·, r)

/-- The schemas of schemas as they are put under their names. -/
def entered : Shelf := resources.foldl (fun s r => s.insert r.1 r.2) Shelf.empty

/-- The schemas of schemas under their names, looked through. -/
def shelf : Shelf := (entered.exploreAll (resources.map (·.1))).getD entered

end Meta

/-- A store of documents, in which the schemas of schemas can be reached too. -/
def Store.ofLibrary (dialect : Dialect) (docs : List (Text × Document)) : Store :=
  (Store.ofDocuments dialect docs).withShelf Meta.shelf

namespace Dialect

/-- The resolver at the root of a dialect's schema of schemas. -/
def metaResolver (d : Dialect) : Resolver :=
  Resolver.ofRoot (Store.ofLibrary d []) ⟨d, d.meta⟩

def metaResolver4 : Resolver := metaResolver draft4

def metaResolver6 : Resolver := metaResolver draft6

def metaResolver7 : Resolver := metaResolver draft7

def metaResolver2019 : Resolver := metaResolver draft2019

def metaResolver2020 : Resolver := metaResolver draft2020

/-- The resolver at the root of a dialect's schema of schemas, made only once for each dialect. -/
def metaRoot : Dialect → Resolver
  | draft4 => metaResolver4
  | draft6 => metaResolver6
  | draft7 => metaResolver7
  | draft2019 => metaResolver2019
  | draft2020 => metaResolver2020

end Dialect
end Conform.Schema
