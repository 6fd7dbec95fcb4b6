import CodeIndex.Json.Basic
import CodeIndex.Language.Registry

/-!
# Languages as JSON
-/

namespace CodeIndex

def Tier.label : Tier → String
  | .first => "Tier1"
  | .second => "Tier2"
  | .third => "Tier3"

def Support.toJson (s : Support) : Json := .ofMembers [
  ("tier", .str s.tier.label),
  ("has_structural_parser", .bool s.hasParser),
  ("has_native_ast", .bool s.hasNativeTree),
  ("has_external_language_server", .bool s.hasServer),
  ("enrichment_required", .bool s.needsEnrichment)]

namespace Language

def toJson (l : Language) : Json := .ofMembers [
  ("name", .str l.name),
  ("display_name", .str l.displayName),
  ("aliases", .strings l.aliases),
  ("extensions", .strings l.extensions),
  ("filenames", .strings l.filenames),
  ("shebangs", .strings l.shebangs),
  ("line_comment", .ofOption .str l.lineComment),
  ("block_comment", .ofOption (fun (o, c) => .strings [o, c]) l.blockComment),
  ("language_server", .ofOption .str l.server),
  ("has_grammar", .bool l.hasGrammar),
  ("grammar_loads", .bool l.hasGrammar),
  ("import_patterns", .strings l.importPatterns),
  ("config_language", .bool l.isConfig),
  ("symbol_types", .strings (l.rules.symbols.map (·.kind))),
  ("queries", .strings (l.rules.present.map Relation.name)),
  ("queries_empty", .bool l.rules.isEmpty),
  ("enclosing_scopes", .ofList (fun (k, f) => .strings [k, f]) l.rules.scopes),
  ("class_scopes", .strings l.rules.classScopes)]

/-- The name and the display name. -/
def brief (l : Language) : Json := .ofMembers [
  ("name", .str l.name), ("display_name", .str l.displayName)]

end Language

/-- What the table of tiers says about a name. -/
def Tier.entry (name : String) : Json :=
  let s := Tier.support name
  .ofMembers [
    ("config", s.toJson), ("tier", .str s.tier.text), ("contains", .bool (Tier.lists name)),
    ("lsp", .bool s.recommendsServer)]

end CodeIndex
