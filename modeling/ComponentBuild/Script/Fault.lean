import ComponentBuild.Text.Printable

namespace ComponentBuild.Script

inductive Fault where
  | expected (what got : String)
  | unexpected (got wanted : String)
  | expectedIdent
  | expectedStatementEnd
  | expectedSemicolon
  | expectedExpression
  | expectedIdentifier
  | unexpectedEnd
  | nestedTooDeep
  | unexpectedChar (c : Char)
  | legacyComment
  | unterminatedString
  | unterminatedTemplate
  | unterminatedRegexp
  | unterminatedComment
  | badEscape (wanted : String)
  | expectedUnicodeEscape
  | invalidUnicodeEscape
  | stringEscape
  | trailingCommaInImport
  | superCallOptional
  | invalidIdentChar
  | escapeInWord (word : String)
  | legacyDecimal
  | legacyOctal
  | octalLiteral
  | expectedDigit (radix : String)
  | numericSeparator
  | identAfterNumber
  | exponentDigits
  | unknownRegexpFlags
  | duplicateRegexpFlag (flag : Char)
  | hashSpace
  | returnNotAllowed
  | continueTarget
  | breakTarget
  | breakOutside
  | jumpAcrossFunction
  | declarationNotAllowed
  | duplicateLabel (label : List Char)
  | labelledFunction
  | labelledGenerator
  | multipleDefaults
  | breakInThrow
  | withInStrict
  | withUnsupported
  | awaitForLoop
  | tooManyLoopVariables
  | loopVariableInitializer
  | loopVariableType
  | loopTargetPattern
  | asyncOf
  | trailingComma
  | emptyDeclarationList
  | constInitializer
  | patternInitializer
  | usingDisabled
  | usingInitializer
  | usingIn
  | usingPattern
  | usingExported
  | importExportNested
  | importExportNotTop
  | reservedImport
  | importedString (s : List Char)
  | exportedString
  | exportNeedsFrom (name : List Char)
  | typeImportModifier
  | typeExportModifier
  | stringLiteralExpected
  | strictIdent (name : List Char)
  | evalArguments
  | argumentsUse
  | argumentsInField
  | awaitIdent
  | reservedShorthand
  | assignTarget
  | invalidAssignTarget
  | notSimpleTarget
  | notPattern
  | notExpression
  | restNotLast
  | restComma
  | restParameterLast
  | restParameterInitializer
  | restParameterOptional
  | restNeedsIdentifier
  | emptyParen
  | spreadInParen
  | assignmentProperty
  | breakBeforeArrow
  | arrowNotAllowed
  | unaryInPower
  | mixedNullish
  | deleteIdent
  | deleteOperand
  | awaitInFunction
  | awaitInParameter
  | awaitStar
  | yieldInParameter
  | invalidSuper
  | invalidSuperCall
  | invalidNewTarget
  | newOptionalChain
  | taggedOptionalChain
  | importNotAllowed
  | getterParameters
  | setterParameter
  | restInSetter
  | commaInComputedKey
  | optionalObjectMember
  | useStrictHere
  | duplicateConstructor
  | constructorAccessor
  | asyncConstructor
  | generatorConstructor
  | constructorProperty
  | privateConstructor
  | readonlyMethod
  | readonlyAccessor
  | optionalAccessor
  | privateModifier (modifier : String)
  | privateAccessibility
  | className
  | extendsSingle
  | extendsSeen
  | extendsFirst
  | implementsSeen
  | interfaceImplements
  | abstractBody
  | abstractInitializer
  | abstractHere
  | overrideWithoutExtends
  | modifierSeen (modifier : String)
  | modifierOrder (first second : String)
  | modifierConflict (first second : String)
  | modifierOnConstructor (modifier : String)
  | modifierOnParameter (modifier : String)
  | modifierOnTypeOnly (modifier : String)
  | constOnTypeOnly (modifier : String)
  | modifierHere
  | declareOnMember
  | declareTwice
  | asyncModifier
  | ambientBody
  | parameterProperty
  | parameterPropertyPattern
  | parameterInitializer
  | optionalInitializer
  | optionalPattern
  | typeAfterDefault
  | indexSignatureParameter
  | emptyTypeParameters
  | constructorTypeParameters
  | constructorType
  | interfaceName
  | heritageName
  | numericEnumMember
  | computedEnumMember
  | readonlyType
  | requiredAfterOptional
  | instantiationAccess
  | nonNullNotAllowed (what : String)
  | privateInInterface
  | setterSignatureParameter
  deriving DecidableEq, Repr, Inhabited

namespace Fault

def message : Fault → String
  | expected what got => "Expected '" ++ what ++ "', got '" ++ got ++ "'"
  | unexpected got wanted => "Unexpected token \x60" ++ got ++ "\x60. Expected " ++ wanted
  | expectedIdent => "Expected ident"
  | expectedStatementEnd => "Expected ';', '\x7d' or <eof>"
  | expectedSemicolon => "Expected a semicolon"
  | expectedExpression => "Expression expected"
  | expectedIdentifier => "Expected an identifier"
  | unexpectedEnd => "Unexpected eof"
  | nestedTooDeep => "Nesting is too deep"
  | unexpectedChar c => "Unexpected character " ++ Text.debugChar c
  | legacyComment => "Legacy comments cannot be used in module code"
  | unterminatedString => "Unterminated string constant"
  | unterminatedTemplate => "Unterminated template"
  | unterminatedRegexp => "Unterminated regexp literal"
  | unterminatedComment => "Unterminated block comment"
  | badEscape wanted => "Bad character escape sequence, expected " ++ wanted
  | expectedUnicodeEscape => "Expected unicode escape"
  | invalidUnicodeEscape => "Invalid unicode escape"
  | stringEscape => "Invalid string escape"
  | trailingCommaInImport => "Trailing comma is disallowed inside import(...) arguments"
  | superCallOptional => "Super call cannot be optional"
  | invalidIdentChar => "Invalid character in identifier"
  | escapeInWord word => "Unexpected escape sequence in reserved word: " ++ word
  | legacyDecimal => "Legacy decimal escape is not permitted in strict mode"
  | legacyOctal => "Legacy octal escape is not permitted in strict mode"
  | octalLiteral =>
    "Legacy octal literals are not available when targeting ECMAScript 5 and higher"
  | expectedDigit radix => "Expected " ++ radix ++ " digit"
  | numericSeparator => "A numeric separator is only allowed between two digits"
  | identAfterNumber => "Identifier cannot follow number"
  | exponentDigits => "Expected +, - or decimal digit after e"
  | unknownRegexpFlags => "Unknown regular expression flags."
  | duplicateRegexpFlag flag =>
    "Duplicated regular expression flag '" ++ String.singleton flag ++ "'."
  | hashSpace => "Unexpected space between # and identifier"
  | returnNotAllowed => "Return statement is not allowed here"
  | continueTarget =>
    "A 'continue' statement can only jump to a label of an enclosing iteration statement"
  | breakTarget => "A 'break' statement can only jump to a label of an enclosing statement"
  | breakOutside =>
    "A 'break' statement can only be used within an enclosing iteration or switch statement"
  | jumpAcrossFunction => "Jump target cannot cross function boundary"
  | declarationNotAllowed => "Declaration is not allowed"
  | duplicateLabel label => "Label " ++ String.ofList label ++ " is already declared"
  | labelledFunction => "Function cannot be labelled in strict mode"
  | labelledGenerator => "Generator or async function cannot be labelled"
  | multipleDefaults => "A switch block cannot have multiple defaults"
  | breakInThrow => "LineBreak cannot follow 'throw'"
  | withInStrict => "With statement are not allowed in strict mode"
  | withUnsupported =>
    "The 'with' statement is not supported. All symbols in a 'with' block will have type 'any'."
  | awaitForLoop => "for await syntax is valid only for for-of statement"
  | tooManyLoopVariables => "Expected one variable binding"
  | loopVariableInitializer => "Unexpected initializer in for in/of loop"
  | loopVariableType => "The left-hand side of a 'for...of' statement cannot use a type annotation"
  | loopTargetPattern =>
    "The left-hand side of a 'for...in' statement cannot be a destructuring pattern"
  | asyncOf => "The left-hand side of a \x60for...of\x60 statement may not be \x60async\x60."
  | trailingComma => "Trailing comma is not allowed"
  | emptyDeclarationList => "Variable declaration list cannot be empty"
  | constInitializer => "'const' declarations must be initialized"
  | patternInitializer => "Destructuring bindings require initializers"
  | usingDisabled =>
    "Using declaration is not enabled. Set jsc.parser.explicitResourceManagement to true"
  | usingInitializer => "Using declaration requires initializer"
  | usingIn => "Using declaration is not allowed in for-in loop"
  | usingPattern => "Using declaration only allows identifier"
  | usingExported => "Exporting using declaration is not allowed"
  | importExportNested => "'import', and 'export' cannot be used outside of module code"
  | importExportNotTop => "'import', and 'export' are not permitted here"
  | reservedImport => "cannot import as reserved word"
  | importedString s =>
    "A string literal cannot be used as an imported binding.\n- Did you mean \x60import \x7b \"" ++ String.ofList s ++ "\" as foo \x7d\x60?"
  | exportedString =>
    "A string literal cannot be used as an exported binding without \x60from\x60."
  | exportNeedsFrom name =>
    "\x60" ++ String.ofList name ++ "\x60 cannot be used without \x60from\x60 clause"
  | typeImportModifier =>
    "The 'type' modifier cannot be used on a named import when 'import type' is used on its import statement."
  | typeExportModifier =>
    "The 'type' modifier cannot be used on a named export when 'export type' is used on its export statement."
  | stringLiteralExpected => "String literal expected"
  | strictIdent name =>
    "\x60" ++ String.ofList name ++ "\x60 cannot be used as an identifier in strict mode"
  | evalArguments => "'eval' and 'arguments' cannot be used as a binding identifier in strict mode"
  | argumentsUse => "Invalid use of 'arguments' in strict mode"
  | argumentsInField => "'arguments' is only allowed in functions and class methods"
  | awaitIdent => "\x60await\x60 cannot be used as an identifier in an async context"
  | reservedShorthand => "Cannot use a reserved word as a shorthand property"
  | assignTarget =>
    "The left-hand side of an assignment expression must be a variable or a property access."
  | invalidAssignTarget => "Invalid assignment target"
  | notSimpleTarget => "Cannot assign to this"
  | notPattern => "Not a pattern"
  | notExpression => "Not an expression"
  | restNotLast => "Rest element must be final element"
  | restComma => "Trailing comma isn't permitted after a rest element"
  | restParameterLast => "A rest parameter must be last in a parameter list"
  | restParameterInitializer => "A rest parameter cannot have an initializer"
  | restParameterOptional => "A rest parameter cannot be optional"
  | restNeedsIdentifier => "\x60...\x60 must be followed by an identifier in declaration contexts"
  | emptyParen => "Parenthesized expression cannot be empty"
  | spreadInParen => "Parenthesized expression cannot contain spread operator"
  | assignmentProperty => "assignment property is invalid syntax"
  | breakBeforeArrow => "Unexpected line break between arrow head and arrow"
  | arrowNotAllowed => "Arrow function is not allowed here"
  | unaryInPower => "'**' cannot be applied to unary/await expression."
  | mixedNullish =>
    "Nullish coalescing operator(??) requires parens when mixing with logical operators"
  | deleteIdent => "'delete' cannot be called on an identifier in strict mode"
  | deleteOperand => "The operand of a delete operator must be a property reference."
  | awaitInFunction => "await isn't allowed in non-async function"
  | awaitInParameter => "\x60await\x60 expressions cannot be used in a parameter initializer."
  | awaitStar =>
    "await* has been removed from the async functions proposal. Use Promise.all() instead."
  | yieldInParameter => "'yield' cannot be used as a parameter within generator"
  | invalidSuper => "Invalid access to super"
  | invalidSuperCall => "Invalid access to super"
  | invalidNewTarget => "'new.target' is only allowed in the body of a function or class"
  | newOptionalChain => "Constructor in/after an optional chaining is not allowed."
  | taggedOptionalChain => "Tagged template literals are not allowed in an optional chain"
  | importNotAllowed => "Invalid import"
  | getterParameters => "A \x60get\x60 accessor cannot have parameters"
  | setterParameter => "A \x60set\x60 accessor must have exactly one parameter"
  | restInSetter => "Rest pattern is not allowed in setter"
  | commaInComputedKey => "A comma expression is not allowed in a computed property name"
  | optionalObjectMember => "An object member cannot be declared optional"
  | useStrictHere => "Illegal 'use strict' directive in function with non-simple parameter list."
  | duplicateConstructor => "A class can only have one constructor"
  | constructorAccessor => "Class constructor can't be an accessor."
  | asyncConstructor => "Constructor can't be an async function"
  | generatorConstructor => "Constructor can't be a generator"
  | constructorProperty => "Classes may not have a non-static field named 'constructor'"
  | privateConstructor => "Classes can't have a private field named '#constructor'"
  | readonlyMethod => "A method cannot be readonly"
  | readonlyAccessor => "A getter or a setter cannot be readonly"
  | optionalAccessor => "A getter or a setter cannot be optional"
  | privateModifier modifier =>
    "'" ++ modifier ++ "' modifier cannot be used with a private identifier"
  | privateAccessibility => "An accessibility modifier cannot be used with a private identifier."
  | className => "Invalid class name"
  | extendsSingle => "Classes can only extend a single class"
  | extendsSeen => "\x60extends\x60 clause already seen."
  | extendsFirst => "'extends' clause must precede 'implements' clause."
  | implementsSeen => "\x60implements\x60 clause already seen"
  | interfaceImplements => "Interface declaration cannot have 'implements' clause"
  | abstractBody => "Abstract method cannot have an implementation."
  | abstractInitializer => "Abstract property cannot have an initializer."
  | abstractHere => "\x60abstract\x60 modifier can only appear on a class or method declaration"
  | overrideWithoutExtends =>
    "This member cannot have an 'override' modifier because its containing class does not extend another class."
  | modifierSeen modifier => "'" ++ modifier ++ "' modifier already seen."
  | modifierOrder first second =>
    "'" ++ first ++ "' modifier must precede '" ++ second ++ "' modifier."
  | modifierConflict first second =>
    "'" ++ first ++ "' modifier cannot be used with '" ++ second ++ "' modifier."
  | modifierOnConstructor modifier =>
    "'" ++ modifier ++ "' modifier cannot appear on a constructor declaration"
  | modifierOnParameter modifier =>
    "'" ++ modifier ++ "' modifier cannot appear on a type parameter"
  | modifierOnTypeOnly modifier =>
    "'" ++ modifier ++ "' modifier can only appear on a type parameter of a class, interface or type alias"
  | constOnTypeOnly modifier =>
    "'" ++ modifier ++ "' modifier can only appear on a type parameter of a function, method or class"
  | modifierHere => "Modifiers cannot appear here"
  | declareOnMember => "\x60declare\x60 modifier cannot appear on class elements of this kind"
  | declareTwice => "\x60declare\x60 modifier not allowed for code already in an ambient context"
  | asyncModifier => "\x60async\x60 modifier cannot be used here"
  | ambientBody => "An implementation cannot be declared in ambient contexts"
  | parameterProperty => "A parameter property is only allowed in a constructor implementation"
  | parameterPropertyPattern =>
    "Typescript parameter property must be an identifier or assignment pattern"
  | parameterInitializer =>
    "A parameter initializer is only allowed in a function or constructor implementation"
  | optionalInitializer => "Parameter cannot have question mark and initializer"
  | optionalPattern =>
    "A binding pattern parameter cannot be optional in an implementation signature."
  | typeAfterDefault =>
    "Type annotations must come before default assignments, e.g. instead of \x60age = 25: number\x60 use \x60age: number = 25\x60"
  | indexSignatureParameter => "An index signature must have exactly one parameter"
  | emptyTypeParameters => "Type parameter list cannot be empty"
  | constructorTypeParameters => "Type parameters cannot appear on a constructor declaration"
  | constructorType => "Type annotation cannot appear on a constructor declaration"
  | interfaceName => "interface name is invalid"
  | heritageName =>
    "An interface can only extend an identifier/qualified-name with optional type arguments."
  | numericEnumMember => "An enum member cannot have a numeric name"
  | computedEnumMember => "Computed property names are not allowed in enums."
  | readonlyType => "'readonly' type modifier is only permitted on array and tuple literal types."
  | requiredAfterOptional => "A required element cannot follow an optional element."
  | instantiationAccess => "An instantiation expression cannot be followed by a property access."
  | nonNullNotAllowed what =>
    "TypeScript non-null assertion operator is not allowed with '" ++ what ++ "'"
  | privateInInterface => "private names are not allowed in interface"
  | setterSignatureParameter => "A \x60set\x60 accessor must have a parameter"

end Fault

/-- A fault and the offset it shows at. -/
structure SyntaxError where
  fault : Fault
  offset : Nat
  deriving DecidableEq, Repr, Inhabited

end ComponentBuild.Script
