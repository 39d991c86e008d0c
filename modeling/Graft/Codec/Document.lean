import Graft.Codec.Basic
import Graft.Document.Basic
import Graft.Record.Basic

/-!
# Documents and records in JSON
-/

namespace Graft

namespace SnippetField

def decode : Json → Except DecodeFault SnippetField := Json.asChoice all key

end SnippetField

namespace ModuleFile

def toJson (f : ModuleFile) : Json :=
  .object [("path", .string f.path), ("content", .string f.content)]

def decode (v : Json) : Except DecodeFault ModuleFile := do
  let ms ← v.asMembers ["path", "content"]
  return { path := ← (Json.member "path" ms).asText
           content := ← (Json.member "content" ms).asText }

end ModuleFile

namespace Snippets

def toJson (s : Snippets) : Json :=
  .object (SnippetField.all.map fun f => (f.key, .ofOption (s.get f)))

def decode (v : Json) : Except DecodeFault Snippets := do
  let ms ← v.asMembers (SnippetField.all.map SnippetField.key)
  return { importLine := ← (Json.member "import" ms).asOption Json.asText
           route := ← (Json.member "route" ms).asOption Json.asText
           homeCard := ← (Json.member "home_card" ms).asOption Json.asText }

end Snippets

namespace Document

def toJson (d : Document) : Json :=
  .object [("module_name", .string d.moduleName), ("slug", .string d.slug),
    ("plan", .ofOption d.plan), ("files", .array (d.files.map ModuleFile.toJson)),
    ("integration", d.snippets.toJson)]

def decode (v : Json) : Except DecodeFault Document := do
  let ms ← v.asMembers ["module_name", "slug", "plan", "files", "integration"]
  return { moduleName := ← (Json.member "module_name" ms).asText
           slug := ← (Json.member "slug" ms).asText
           plan := ← (Json.member "plan" ms).asOption Json.asText
           files := ← (Json.member "files" ms).asList ModuleFile.decode
           snippets := ← Snippets.decode (Json.member "integration" ms) }

end Document

namespace Record

def toJson (r : Record) : Json :=
  .object [("index", .ofNat r.index), ("import_snippet", .ofOption r.importSnippet),
    ("route_snippet", .ofOption r.routeSnippet),
    ("list_entry_snippet", .ofOption r.entrySnippet),
    ("component_name", .ofOption r.component), ("route_path", .ofOption r.routePath),
    ("list_entry_path", .ofOption r.entryPath), ("icon_name", .ofOption r.icon)]

def decode (v : Json) : Except DecodeFault Record := do
  let ms ← v.asMembers ["index", "import_snippet", "route_snippet", "list_entry_snippet",
    "component_name", "route_path", "list_entry_path", "icon_name"]
  return { index := ← (Json.member "index" ms).asNat
           importSnippet := ← (Json.member "import_snippet" ms).asOption Json.asText
           routeSnippet := ← (Json.member "route_snippet" ms).asOption Json.asText
           entrySnippet := ← (Json.member "list_entry_snippet" ms).asOption Json.asText
           component := ← (Json.member "component_name" ms).asOption Json.asText
           routePath := ← (Json.member "route_path" ms).asOption Json.asText
           entryPath := ← (Json.member "list_entry_path" ms).asOption Json.asText
           icon := ← (Json.member "icon_name" ms).asOption Json.asText }

end Record

end Graft
