/-
# The built-in language table

The node kinds are the names that the common published grammars of these
languages use, in ascending order of the language ids. TypeScript inherits from
JavaScript, and C++ from C, so that only what they add is listed for them.
-/

import LineGuard.Language.Table

namespace LineGuard.LanguageTable

/-- A list of names. -/
private def names (words : List String) : List Text := words.map (·.toList)

/-- A list of node kinds for each scope name. -/
private def scopeLists (lists : List (String × List String)) : ScopeKinds :=
  Dict.ofEntries (lists.map fun (scope, kinds) => (scope.toList, names kinds))

/-- The declaration of `c`. -/
private def cDeclaration : LanguageDeclaration where
  parent := none
  extensions := names ["c", "h"]
  scopes := scopeLists [
      ("func", ["function_definition"]),
      ("class", ["struct_specifier", "union_specifier", "enum_specifier"]),
      ("block", ["compound_statement", "if_statement", "for_statement", "while_statement",
        "switch_statement", "initializer_list"]),
      ("sig", ["function_definition"]),
      ("body", ["compound_statement", "field_declaration_list"]),
      ("stmt", ["declaration", "expression_statement", "return_statement", "preproc_include",
        "preproc_def"]),
      ("expr", ["call_expression", "binary_expression", "assignment_expression"])]
  overrides := []

/-- The declaration of `cpp`. -/
private def cppDeclaration : LanguageDeclaration where
  parent := some "c".toList
  extensions := names ["cpp", "cc", "cxx", "hpp", "hh", "hxx"]
  scopes := scopeLists [
      ("func", ["lambda_expression", "template_declaration"]),
      ("class", ["class_specifier", "namespace_definition"]),
      ("body", ["declaration_list"]),
      ("block", ["try_statement"])]
  overrides := []

/-- The declaration of `csharp`. -/
private def csharpDeclaration : LanguageDeclaration where
  parent := none
  extensions := names ["cs"]
  scopes := scopeLists [
      ("func", ["method_declaration", "constructor_declaration", "local_function_statement",
        "lambda_expression"]),
      ("class", ["class_declaration", "struct_declaration", "interface_declaration", "enum_declaration",
        "record_declaration", "namespace_declaration"]),
      ("block", ["block", "if_statement", "for_statement", "foreach_statement", "while_statement",
        "try_statement", "switch_statement"]),
      ("sig", ["method_declaration", "constructor_declaration"]),
      ("body", ["block", "declaration_list"]),
      ("stmt", ["local_declaration_statement", "expression_statement", "return_statement",
        "field_declaration"]),
      ("expr", ["invocation_expression", "binary_expression", "object_creation_expression"])]
  overrides := []

/-- The declaration of `go`. -/
private def goDeclaration : LanguageDeclaration where
  parent := none
  extensions := names ["go"]
  scopes := scopeLists [
      ("func", ["function_declaration", "method_declaration", "func_literal"]),
      ("class", ["type_declaration", "type_spec"]),
      ("block", ["block", "if_statement", "for_statement", "expression_switch_statement",
        "select_statement"]),
      ("sig", ["function_declaration", "method_declaration"]),
      ("body", ["block"]),
      ("stmt", ["short_var_declaration", "var_declaration", "assignment_statement", "return_statement",
        "expression_statement"]),
      ("expr", ["call_expression", "binary_expression", "composite_literal"])]
  overrides := []

/-- The declaration of `java`. -/
private def javaDeclaration : LanguageDeclaration where
  parent := none
  extensions := names ["java"]
  scopes := scopeLists [
      ("func", ["method_declaration", "constructor_declaration", "lambda_expression"]),
      ("class", ["class_declaration", "interface_declaration", "enum_declaration", "record_declaration"]),
      ("block", ["block", "if_statement", "for_statement", "enhanced_for_statement", "while_statement",
        "try_statement", "switch_expression"]),
      ("sig", ["method_declaration", "constructor_declaration", "class_declaration"]),
      ("body", ["block", "constructor_body", "class_body"]),
      ("stmt", ["local_variable_declaration", "expression_statement", "return_statement",
        "field_declaration"]),
      ("expr", ["method_invocation", "binary_expression", "object_creation_expression"])]
  overrides := []

/-- The declaration of `javascript`. -/
private def javascriptDeclaration : LanguageDeclaration where
  parent := none
  extensions := names ["js", "jsx", "mjs", "cjs"]
  scopes := scopeLists [
      ("func", ["function_declaration", "function_expression", "arrow_function",
        "generator_function_declaration", "method_definition"]),
      ("class", ["class_declaration", "class_expression", "class"]),
      ("block", ["statement_block", "if_statement", "for_statement", "for_in_statement",
        "while_statement", "do_statement", "try_statement", "switch_statement", "object",
        "array"]),
      ("sig", ["function_declaration", "function_expression", "arrow_function",
        "generator_function_declaration", "method_definition", "class_declaration"]),
      ("body", ["statement_block", "class_body"]),
      ("stmt", ["expression_statement", "lexical_declaration", "variable_declaration",
        "return_statement", "throw_statement", "import_statement", "export_statement"]),
      ("expr", ["call_expression", "binary_expression", "assignment_expression", "object", "array",
        "template_string"])]
  overrides := []

/-- The declaration of `php`. -/
private def phpDeclaration : LanguageDeclaration where
  parent := none
  extensions := names ["php"]
  scopes := scopeLists [
      ("func", ["function_definition", "method_declaration", "anonymous_function_creation_expression",
        "arrow_function"]),
      ("class", ["class_declaration", "interface_declaration", "trait_declaration", "enum_declaration"]),
      ("block", ["compound_statement", "if_statement", "for_statement", "foreach_statement",
        "while_statement", "try_statement"]),
      ("sig", ["function_definition", "method_declaration"]),
      ("body", ["compound_statement", "declaration_list"]),
      ("stmt", ["expression_statement", "return_statement", "echo_statement"]),
      ("expr", ["function_call_expression", "binary_expression", "array_creation_expression"])]
  overrides := []

/-- The declaration of `python`. -/
private def pythonDeclaration : LanguageDeclaration where
  parent := none
  extensions := names ["py", "pyi"]
  scopes := scopeLists [
      ("func", ["function_definition", "decorated_definition", "lambda"]),
      ("class", ["class_definition"]),
      ("block", ["block", "if_statement", "for_statement", "while_statement", "try_statement",
        "with_statement", "match_statement", "dictionary", "list"]),
      ("sig", ["function_definition", "class_definition"]),
      ("body", ["block"]),
      ("stmt", ["expression_statement", "return_statement", "import_statement", "import_from_statement",
        "assert_statement", "raise_statement", "pass_statement", "global_statement"]),
      ("expr", ["call", "binary_operator", "assignment", "dictionary", "list", "list_comprehension",
        "string"])]
  overrides := []

/-- The declaration of `ruby`. -/
private def rubyDeclaration : LanguageDeclaration where
  parent := none
  extensions := names ["rb"]
  scopes := scopeLists [
      ("func", ["method", "singleton_method", "lambda", "block", "do_block"]),
      ("class", ["class", "module", "singleton_class"]),
      ("block", ["do_block", "block", "if", "unless", "while", "case", "begin"]),
      ("sig", ["method", "singleton_method"]),
      ("body", ["body_statement"]),
      ("stmt", ["assignment", "call", "return"]),
      ("expr", ["call", "binary", "hash", "array"])]
  overrides := []

/-- The declaration of `rust`. -/
private def rustDeclaration : LanguageDeclaration where
  parent := none
  extensions := names ["rs"]
  scopes := scopeLists [
      ("func", ["function_item", "closure_expression", "function_signature_item"]),
      ("class", ["struct_item", "enum_item", "trait_item", "impl_item", "union_item", "mod_item"]),
      ("block", ["block", "if_expression", "match_expression", "for_expression", "while_expression",
        "loop_expression", "unsafe_block"]),
      ("sig", ["function_item", "impl_item", "trait_item"]),
      ("body", ["block", "declaration_list", "field_declaration_list"]),
      ("stmt", ["let_declaration", "expression_statement", "use_declaration", "const_item",
        "static_item"]),
      ("expr", ["call_expression", "binary_expression", "macro_invocation", "struct_expression",
        "array_expression"])]
  overrides := []

/-- The declaration of `shell`. -/
private def shellDeclaration : LanguageDeclaration where
  parent := none
  extensions := names ["sh", "bash", "zsh"]
  scopes := scopeLists [
      ("func", ["function_definition"]),
      ("block", ["compound_statement", "if_statement", "for_statement", "while_statement",
        "case_statement"]),
      ("sig", ["function_definition"]),
      ("body", ["compound_statement"]),
      ("stmt", ["command", "variable_assignment", "pipeline"]),
      ("expr", ["command_substitution", "arithmetic_expansion"])]
  overrides := []

/-- The declaration of `tsx`. -/
private def tsxDeclaration : LanguageDeclaration where
  parent := some "typescript".toList
  extensions := names ["tsx"]
  scopes := scopeLists [
      ("expr", ["jsx_element", "jsx_self_closing_element"])]
  overrides := []

/-- The declaration of `typescript`. -/
private def typescriptDeclaration : LanguageDeclaration where
  parent := some "javascript".toList
  extensions := names ["ts", "mts", "cts"]
  scopes := scopeLists [
      ("func", ["function_signature", "method_signature"]),
      ("class", ["abstract_class_declaration", "interface_declaration", "enum_declaration",
        "type_alias_declaration", "module"]),
      ("sig", ["abstract_class_declaration", "interface_declaration"]),
      ("body", ["interface_body", "enum_body"]),
      ("stmt", ["type_alias_declaration"])]
  overrides := []

/-- The declarations of the built-in table. -/
def builtinDeclarations : Dict LanguageDeclaration := [
  ("c".toList, cDeclaration),
  ("cpp".toList, cppDeclaration),
  ("csharp".toList, csharpDeclaration),
  ("go".toList, goDeclaration),
  ("java".toList, javaDeclaration),
  ("javascript".toList, javascriptDeclaration),
  ("php".toList, phpDeclaration),
  ("python".toList, pythonDeclaration),
  ("ruby".toList, rubyDeclaration),
  ("rust".toList, rustDeclaration),
  ("shell".toList, shellDeclaration),
  ("tsx".toList, tsxDeclaration),
  ("typescript".toList, typescriptDeclaration)]

/-- The table used unless another one is named. -/
def builtin : LanguageTable where
  version := "1.0.0".toList
  languages := builtinDeclarations.map fun (id, language) =>
    { id
      extensions := language.extensions
      scopes := LanguageDeclaration.resolve builtinDeclarations id }

end LineGuard.LanguageTable
