import CodeIndex.Language.Basic

/-!
# The built-in languages

The order matters: of two languages that a text fits equally well, the earlier one is taken.
-/

namespace CodeIndex.Catalog

open CodeIndex.Tree CodeIndex.Tree.Pattern

/-- A definition whose name stands in a field of its own. -/
def named (kind nameKind : String) : Pattern :=
  (node kind [((node nameKind).filling "name").as .name]).as .definition

def symbol (kind : String) (pattern : Pattern) : SymbolRule :=
  ⟨kind, { patterns := [pattern] }⟩

def query (patterns : List Pattern) : Option Query :=
  some { patterns }

/-- The calls of a function: a node with the callee in a field. -/
def calling (kind field : String) (callee : Pattern) : Pattern :=
  node kind [callee.filling field]

/-- A node with a captured child in a field. -/
def holding (kind field childKind : String) (capture : Capture) : Pattern :=
  node kind [((node childKind).filling field).as capture]

def pythonRules : Rules where
  symbols := [
    symbol "class" (named "class_definition" "identifier"),
    symbol "function" (named "function_definition" "identifier")]
  relation
    | .calls => query [
        holding "call" "function" "identifier" .callee,
        calling "call" "function" (holding "attribute" "attribute" "identifier" .callee)]
    | .references => query [
        holding "call" "function" "identifier" .name,
        holding "attribute" "attribute" "identifier" .name,
        (node "identifier").as .name]
    | .inheritance => query [
        node "class_definition" [
          ((node "identifier").filling "name").as .child,
          (node "argument_list" [(node "identifier").as .base]).filling "superclasses"]]
    | .implements => none
    | .composition => query [
        node "class_definition" [
          ((node "identifier").filling "name").as .owner,
          (node "block" [
            node "function_definition" [
              (((node "identifier").filling "name").as .other).reading "__init__",
              (node "block" [
                node "expression_statement" [
                  node "assignment" [
                    (node "attribute" [
                      (((node "identifier").filling "object").as .other).reading "self"]).filling "left",
                    (holding "call" "function" "identifier" .part).filling "right"]]]).filling
                "body"]]).filling "body"]]
    | .imports => query [
        holding "import_statement" "name" "dotted_name" .module,
        holding "import_from_statement" "module_name" "dotted_name" .module]
  scopes := [("function_definition", "name"), ("class_definition", "name")]
  classScopes := ["class_definition"]

def python : Language where
  name := "python"
  displayName := "Python"
  aliases := ["py", "python3", "python2"]
  extensions := [".py", ".pyw", ".pyi"]
  filenames := ["SConstruct", "SConscript"]
  shebangs := ["python", "python3", "python2"]
  lineComment := "#"
  blockComment := some ("\"\"\"", "\"\"\"")
  server := "pyright"
  hasGrammar := true
  importPatterns := ["^\\s*from\\s+([\\w.]+)\\s+import\\s", "^\\s*import\\s+([\\w.]+)"]
  rules := pythonRules

def rustRules : Rules where
  symbols := [
    symbol "struct" (named "struct_item" "type_identifier"),
    symbol "enum" (named "enum_item" "type_identifier"),
    symbol "trait" (named "trait_item" "type_identifier"),
    symbol "function" (named "function_item" "identifier"),
    symbol "type" (named "type_item" "type_identifier"),
    symbol "module" (named "mod_item" "identifier"),
    symbol "macro" (named "macro_definition" "identifier")]
  relation
    | .calls => query [
        holding "call_expression" "function" "identifier" .callee,
        calling "call_expression" "function"
          (holding "field_expression" "field" "field_identifier" .callee),
        calling "call_expression" "function" (holding "scoped_identifier" "name" "identifier" .callee)]
    | .references => query [
        holding "call_expression" "function" "identifier" .name,
        holding "field_expression" "field" "field_identifier" .name,
        (node "identifier").as .name,
        (node "type_identifier").as .name]
    | .inheritance => none
    | .implements => query [
        node "impl_item" [
          ((node "type_identifier").filling "trait").as .contract,
          ((node "type_identifier").filling "type").as .child]]
    | .composition => query [
        node "struct_item" [
          ((node "type_identifier").filling "name").as .owner,
          (node "field_declaration_list" [
            holding "field_declaration" "type" "type_identifier" .part]).filling "body"]]
    | .imports => query [node "use_declaration" [(filling ⟨none, none, none, none, []⟩ "argument").as .module]]
  scopes := [("function_item", "name"), ("impl_item", "type"), ("trait_item", "name")]
  classScopes := ["struct_item", "impl_item", "trait_item"]

def rust : Language where
  name := "rust"
  displayName := "Rust"
  aliases := ["rs"]
  extensions := [".rs"]
  shebangs := ["rust-script"]
  lineComment := "//"
  blockComment := some ("/*", "*/")
  server := "rust-analyzer"
  hasGrammar := true
  importPatterns := ["^\\s*(?:pub\\s+)?use\\s+([\\w:]+)"]
  rules := rustRules

/-- A type declaration whose specification has that kind of type. -/
def goType (kind : String) : Pattern :=
  (node "type_declaration" [
    node "type_spec" [
      ((node "type_identifier").filling "name").as .name,
      (node kind).filling "type"]]).as .definition

def goRules : Rules where
  symbols := [
    symbol "function" (named "function_declaration" "identifier"),
    symbol "method" (named "method_declaration" "field_identifier"),
    symbol "struct" (goType "struct_type"),
    symbol "interface" (goType "interface_type")]
  relation
    | .calls => query [
        holding "call_expression" "function" "identifier" .callee,
        calling "call_expression" "function"
          (holding "selector_expression" "field" "field_identifier" .callee)]
    | .references => query [
        holding "selector_expression" "field" "field_identifier" .name,
        (node "identifier").as .name,
        (node "type_identifier").as .name]
    | .inheritance => none
    | .implements => none
    | .composition => query [
        node "type_declaration" [
          node "type_spec" [
            ((node "type_identifier").filling "name").as .owner,
            (node "struct_type" [
              node "field_declaration_list" [
                holding "field_declaration" "type" "type_identifier" .part]]).filling "type"]]]
    | .imports => query [holding "import_spec" "path" "interpreted_string_literal" .module]
  scopes := [("function_declaration", "name"), ("method_declaration", "name")]
  classScopes := ["type_declaration"]

def go : Language where
  name := "go"
  displayName := "Go"
  aliases := ["golang"]
  extensions := [".go"]
  filenames := ["go.mod"]
  lineComment := "//"
  blockComment := some ("/*", "*/")
  server := "gopls"
  hasGrammar := true
  importPatterns := ["^\\s*import\\s+(?:\\w+\\s+)?\"([^\"]+)\"", "^\\s+\"([^\"]+)\"$"]
  rules := goRules

/-- A variable bound to a function. -/
def boundFunction (valueKind : String) : Pattern :=
  (node "lexical_declaration" [
    node "variable_declarator" [
      ((node "identifier").filling "name").as .name,
      (node valueKind).filling "value"]]).as .definition

def scriptSymbols (classNameKind : String) : List SymbolRule := [
  symbol "class" (named "class_declaration" classNameKind),
  symbol "function" (named "function_declaration" "identifier"),
  symbol "method" (named "method_definition" "property_identifier"),
  symbol "function" (boundFunction "arrow_function"),
  symbol "function" (boundFunction "function_expression")]

def scriptCalls : Option Query := query [
  holding "call_expression" "function" "identifier" .callee,
  calling "call_expression" "function"
    (holding "member_expression" "property" "property_identifier" .callee),
  holding "new_expression" "constructor" "identifier" .callee]

def scriptImports : Option Query := query [
  holding "import_statement" "source" "string" .module]

def scriptImportPatterns : List String := [
  "^\\s*import\\s+.*?from\\s+['\"]([^'\"]+)['\"]",
  "^\\s*import\\s+['\"]([^'\"]+)['\"]",
  "require\\(\\s*['\"]([^'\"]+)['\"]\\s*\\)"]

def javascriptRules : Rules where
  symbols := scriptSymbols "identifier"
  relation
    | .calls => scriptCalls
    | .references => query [
        holding "member_expression" "property" "property_identifier" .name,
        (node "identifier").as .name]
    | .inheritance => query [
        node "class_declaration" [
          ((node "identifier").filling "name").as .child,
          node "class_heritage" [(node "identifier").as .base]]]
    | .implements => none
    | .composition => query [
        node "class_declaration" [
          ((node "identifier").filling "name").as .owner,
          (node "class_body" [
            node "method_definition" [
              (node "statement_block" [
                node "expression_statement" [
                  node "assignment_expression" [
                    (node "member_expression" [(node "this").filling "object"]).filling "left",
                    (holding "new_expression" "constructor" "identifier" .part).filling "right"]]]).filling
                "body"]]).filling "body"]]
    | .imports => scriptImports
  scopes := [("function_declaration", "name"), ("method_definition", "name"),
    ("class_declaration", "name")]
  classScopes := ["class_declaration"]

def javascript : Language where
  name := "javascript"
  displayName := "JavaScript"
  aliases := ["js", "node"]
  extensions := [".js", ".mjs", ".cjs", ".jsx"]
  shebangs := ["node", "nodejs"]
  lineComment := "//"
  blockComment := some ("/*", "*/")
  server := "typescript-language-server"
  hasGrammar := true
  importPatterns := scriptImportPatterns
  rules := javascriptRules

def typescriptRules : Rules where
  symbols := scriptSymbols "type_identifier" ++ [
    symbol "interface" (named "interface_declaration" "type_identifier"),
    symbol "class" (named "abstract_class_declaration" "type_identifier"),
    symbol "enum" (named "enum_declaration" "identifier")]
  relation
    | .calls => scriptCalls
    | .references => query [
        holding "member_expression" "property" "property_identifier" .name,
        (node "identifier").as .name,
        (node "type_identifier").as .name]
    | .inheritance => query [
        node "class_declaration" [
          ((node "type_identifier").filling "name").as .child,
          node "class_heritage" [holding "extends_clause" "value" "identifier" .base]]]
    | .implements => query [
        node "class_declaration" [
          ((node "type_identifier").filling "name").as .child,
          node "class_heritage" [
            node "implements_clause" [(node "type_identifier").as .contract]]]]
    | .composition => query [
        node "class_declaration" [
          ((node "type_identifier").filling "name").as .owner,
          (node "class_body" [
            node "public_field_definition" [
              (node "type_annotation" [(node "type_identifier").as .part]).filling "type"]]).filling
            "body"]]
    | .imports => scriptImports
  scopes := [("function_declaration", "name"), ("method_definition", "name"),
    ("class_declaration", "name"), ("abstract_class_declaration", "name"),
    ("interface_declaration", "name")]
  classScopes := ["class_declaration", "abstract_class_declaration", "interface_declaration"]

def typescript : Language where
  name := "typescript"
  displayName := "TypeScript"
  aliases := ["ts"]
  extensions := [".ts", ".mts", ".cts"]
  shebangs := ["ts-node", "deno"]
  lineComment := "//"
  blockComment := some ("/*", "*/")
  server := "typescript-language-server"
  hasGrammar := true
  importPatterns := scriptImportPatterns
  rules := typescriptRules

def tsx : Language where
  name := "tsx"
  displayName := "TSX"
  extensions := [".tsx"]
  lineComment := "//"
  blockComment := some ("/*", "*/")
  server := "typescript-language-server"
  hasGrammar := true
  importPatterns := scriptImportPatterns
  rules := typescriptRules

def bashRules : Rules where
  symbols := [symbol "function" (named "function_definition" "word")]
  relation
    | .calls => query [(node "command" [(node "command_name" [(node "word").as .callee]).filling "name"])]
    | .references => query [(node "variable_name").as .name]
    | _ => none
  scopes := [("function_definition", "name")]

def bash : Language where
  name := "bash"
  displayName := "Bash"
  aliases := ["sh", "shell", "zsh"]
  extensions := [".sh", ".bash", ".zsh", ".ksh"]
  filenames := [".bashrc", ".zshrc", ".profile", ".bash_profile"]
  shebangs := ["bash", "sh", "zsh"]
  lineComment := "#"
  server := "bash-language-server"
  hasGrammar := true
  importPatterns := ["^\\s*(?:source|\\.)\\s+(\\S+)"]
  rules := bashRules

/-- Languages with a grammar of which no query is asked. -/
def parsedOnly : List Language := [
  { name := "toml", displayName := "TOML", extensions := [".toml"],
    filenames := ["Cargo.lock", "Pipfile"], lineComment := "#", hasGrammar := true, isConfig := true },
  { name := "json", displayName := "JSON", extensions := [".json", ".jsonc"],
    filenames := [".eslintrc", ".babelrc"], hasGrammar := true, isConfig := true },
  { name := "markdown", displayName := "Markdown", aliases := ["md"],
    extensions := [".md", ".markdown"], hasGrammar := true }]

def includePattern : String := "^\\s*#include\\s+[<\"]([^>\"]+)[>\"]"

/-- Languages that are recognised and read line by line. -/
def recognised : List Language := [
  { name := "java", displayName := "Java", extensions := [".java"], lineComment := "//",
    server := "jdtls", importPatterns := ["^\\s*import\\s+(?:static\\s+)?([\\w.*]+)\\s*;"] },
  { name := "c", displayName := "C", extensions := [".c", ".h"], lineComment := "//",
    server := "clangd", importPatterns := [includePattern] },
  { name := "cpp", displayName := "C++", aliases := ["c++", "cxx"],
    extensions := [".cpp", ".cc", ".cxx", ".hpp", ".hh", ".hxx"], lineComment := "//",
    server := "clangd", importPatterns := [includePattern] },
  { name := "ruby", displayName := "Ruby", aliases := ["rb"], extensions := [".rb", ".rake"],
    filenames := ["Rakefile", "Gemfile"], shebangs := ["ruby"], lineComment := "#",
    importPatterns := ["^\\s*require(?:_relative)?\\s+['\"]([^'\"]+)['\"]"] },
  { name := "php", displayName := "PHP", extensions := [".php"], shebangs := ["php"],
    lineComment := "//", importPatterns := ["^\\s*use\\s+([\\w\\\\]+)\\s*;"] },
  { name := "csharp", displayName := "C#", aliases := ["cs", "c#"], extensions := [".cs"],
    lineComment := "//", importPatterns := ["^\\s*using\\s+([\\w.]+)\\s*;"] },
  { name := "kotlin", displayName := "Kotlin", aliases := ["kt"], extensions := [".kt", ".kts"],
    lineComment := "//", importPatterns := ["^\\s*import\\s+([\\w.*]+)"] },
  { name := "swift", displayName := "Swift", extensions := [".swift"], lineComment := "//",
    importPatterns := ["^\\s*import\\s+(\\w+)"] },
  { name := "scala", displayName := "Scala", extensions := [".scala", ".sc"], lineComment := "//",
    importPatterns := ["^\\s*import\\s+([\\w.\x7b\x7d, ]+)"] },
  { name := "lua", displayName := "Lua", extensions := [".lua"], shebangs := ["lua"],
    lineComment := "--", importPatterns := ["require\\s*\\(?\\s*['\"]([^'\"]+)['\"]"] },
  { name := "sql", displayName := "SQL", extensions := [".sql"], lineComment := "--" },
  { name := "html", displayName := "HTML", extensions := [".html", ".htm"] },
  { name := "css", displayName := "CSS", extensions := [".css", ".scss", ".less"] },
  { name := "yaml", displayName := "YAML", aliases := ["yml"], extensions := [".yaml", ".yml"],
    lineComment := "#", isConfig := true }]

def languages : List Language :=
  [python, rust, go, javascript, typescript, tsx, bash] ++ parsedOnly ++ recognised

end CodeIndex.Catalog
