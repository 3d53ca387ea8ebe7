import Conform.Document

/-!
Words for writing schemas of schemas.
-/
namespace Conform.Schema.Meta

/-- A list of texts. -/
def words (ws : List String) : Document := .list (ws.map .string)

/-- The schema that a reference leads to. -/
def ref (target : String) : Document := .record [("$ref", .string target)]

/-- The schema for the values of one type. -/
def typed (type : String) : Document := .record [("type", .string type)]

/-- The schema around the present one, as the dialect of 2019 refers to it. -/
def around : Document := .record [("$recursiveRef", .string "#")]

/-- The schema around the present one, as the dialect of 2020 refers to it. -/
def whole : Document := .record [("$dynamicRef", .string "#meta")]

end Conform.Schema.Meta
