import Echadron.Lib.JsString

namespace Echadron.Tool
open Lib

/-! Rules of permissions and what they match. A text is the list of its characters. -/

abbrev Text := List Char

inductive PathClass where
  | posix
  | win32
deriving DecidableEq

/-- The package of that name. None stands for an error that is thrown. -/
structure Picomatch where
  isMatch (nocase : Bool) (value pattern : Text) : Option Bool

/-- The package of that name. -/
structure Pathe where
  isAbsolute : Text → Bool
  normalize : Text → Text
  resolve : Text → Text → Text
  join : Text → Text → Text
  /-- The root that `parse` finds. -/
  root : Text → Text

structure PermissionPathMatchOptions where
  cwd : Option Text := none
  pathClass : Option PathClass := none
  homeDir : Option Text := none
  caseInsensitivePaths : Option Bool := none

def replaceBackslashes (value : Text) : Text := value.map fun c => if c = '\\' then '/' else c

def isSeparator (c : Char) : Bool := c = '/' ∨ c = '\\'

/-! Of the guards of paths, what brings a path into its canonical form. -/

def joinDrive (letter : Char) (rest : Text) : Text :=
  let normalizedRest := replaceBackslashes rest
  if normalizedRest = [] then [letter.toUpper, ':', '/'] else letter.toUpper :: ':' :: normalizedRest

/-- A drive's letter after `/cygdrive/` or `/`, with what follows it. -/
def shellDrive : Text → Option (Char × Text)
  | '/' :: 'c' :: 'y' :: 'g' :: 'd' :: 'r' :: 'i' :: 'v' :: 'e' :: '/' :: letter :: rest =>
    if letter.isAlpha ∧ rest.head?.all (· = '/') then some (letter, rest) else none
  | '/' :: letter :: rest => if letter.isAlpha ∧ rest.head?.all (· = '/') then some (letter, rest) else none
  | _ => none

def translateShellDrivePath (path : Text) : Text :=
  match path with
  | '/' :: letter :: ':' :: rest =>
    if letter.isAlpha ∧ rest.head?.all isSeparator then joinDrive letter rest else path
  | _ =>
    match shellDrive path with
    | some (letter, rest) => joinDrive letter rest
    | none => path

def isWin32DriveRelative : Text → Bool
  | letter :: ':' :: rest => letter.isAlpha ∧ rest.head?.all fun c => !isSeparator c
  | _ => false

def normalizeUserPath (path : Text) (pathClass : PathClass) : Text :=
  match pathClass with
  | .win32 => translateShellDrivePath path
  | .posix => path

def canonicalizePath (pathe : Pathe) (path cwd : Text) (pathClass : PathClass) : Option Text :=
  if path = [] then none
  else
    let normalizedPath := normalizeUserPath path pathClass
    if pathClass = .win32 ∧ isWin32DriveRelative normalizedPath then none
    else if pathe.isAbsolute normalizedPath = false ∧ pathe.isAbsolute cwd = false then none
    else
      let abs := if pathe.isAbsolute normalizedPath then normalizedPath else pathe.resolve cwd normalizedPath
      some (pathe.normalize abs)

def stripLeadingDotSlash : Text → Text
  | '.' :: '/' :: rest => rest
  | value => value

def globMatch (glob : Picomatch) (value pattern : Text) (nocase : Bool) : Option Bool :=
  match glob.isMatch nocase value pattern with
  | some false =>
    let normalizedValue := stripLeadingDotSlash value
    let normalizedPattern := stripLeadingDotSlash pattern
    if normalizedValue = value ∧ normalizedPattern = pattern then some false
    else glob.isMatch nocase normalizedValue normalizedPattern
  | result => result

def isWin32Text : Text → Bool
  | '\\' :: '\\' :: _ => true
  | letter :: ':' :: rest => (letter.isAlpha ∧ rest.head?.all isSeparator) ∨ '\\' ∈ letter :: ':' :: rest
  | value => '\\' ∈ value

def pathMatchSemantics (value pattern : Text) (options : PermissionPathMatchOptions) : PathClass :=
  options.pathClass.getD (if isWin32Text value ∨ isWin32Text pattern then .win32 else .posix)

def expandUserPath (pathe : Pathe) (value : Text) (pathClass : PathClass) (homeDir : Option Text) : Text :=
  match homeDir with
  | none => value
  | some homeDir =>
    match value with
    | ['~'] => homeDir
    | '~' :: '/' :: rest => pathe.join homeDir rest
    | '~' :: '\\' :: rest => if pathClass = .win32 then pathe.join homeDir rest else value
    | _ => value

def defaultCwdForPath (pathe : Pathe) (value : Text) : Option Text :=
  if pathe.isAbsolute value then some (pathe.root value) else none

def canonicalizePathPattern (pathe : Pathe) (value : Text) (pathClass : PathClass)
    (options : PermissionPathMatchOptions) : Option Text :=
  let expanded := expandUserPath pathe value pathClass options.homeDir
  match options.cwd.or (defaultCwdForPath pathe expanded) with
  | some cwd => canonicalizePath pathe expanded cwd pathClass
  | none => none

def stripLeadingDotPath (value : Text) (pathClass : PathClass) : Text :=
  match value with
  | '.' :: '/' :: rest => rest
  | '.' :: '\\' :: rest => if pathClass = .win32 then rest else value
  | _ => value

/-- What `addPathVariant` adds for a value. -/
def pathVariant (value : Text) (pathClass : PathClass) : List Text :=
  match pathClass with
  | .win32 => [value, replaceBackslashes value]
  | .posix => [value]

def pathVariants (pathe : Pathe) (value : Text) (pathClass : PathClass)
    (options : PermissionPathMatchOptions) : List Text :=
  (pathVariant value pathClass ++ pathVariant (stripLeadingDotPath value pathClass) pathClass ++
    match canonicalizePathPattern pathe value pathClass options with
    | some canonical => pathVariant canonical pathClass
    | none => []).eraseDups

/-- Whether the test holds somewhere, as far as it has to be tried. -/
def someMatch {α : Type} (test : α → Option Bool) : List α → Option Bool
  | [] => some false
  | a :: as =>
    match test a with
    | some false => someMatch test as
    | result => result

def pathGlobMatch (glob : Picomatch) (pathe : Pathe) (value pattern : Text)
    (options : PermissionPathMatchOptions) : Option Bool :=
  let pathClass := pathMatchSemantics value pattern options
  let nocase := options.caseInsensitivePaths.getD true
  match globMatch glob value pattern nocase with
  | some false =>
    someMatch (fun pair => globMatch glob pair.1 pair.2 nocase)
      ((pathVariants pathe value pathClass options).product (pathVariants pathe pattern pathClass options))
  | result => result

def GLOB_LITERAL_SPECIAL : Text := ['\\', '*', '?', '[', ']', '{', '}', '(', ')', '!', '+', '@', '|']

def escapeRuleSubjectLiteral (subject : Text) : Text :=
  subject.flatMap fun c => if c ∈ GLOB_LITERAL_SPECIAL then ['\\', c] else [c]

def literalRulePattern (toolName subject : Text) : Text :=
  toolName ++ '(' :: escapeRuleSubjectLiteral subject ++ [')']

def matchRuleSubjects (ruleArgs : Text) (subjects : List Text)
    (matchesPositivePattern : Text → Text → Option Bool) : Option Bool :=
  match ruleArgs with
  | [] => some true
  | '!' :: positivePattern => (someMatch (matchesPositivePattern positivePattern) subjects).map (!·)
  | positivePattern => someMatch (matchesPositivePattern positivePattern) subjects

def matchesGlobRuleSubject (glob : Picomatch) (ruleArgs subject : Text) : Option Bool :=
  matchRuleSubjects ruleArgs [subject] fun pattern value => globMatch glob value pattern false

def matchesPathRuleSubject (glob : Picomatch) (pathe : Pathe) (ruleArgs subject : Text)
    (options : PermissionPathMatchOptions) : Option Bool :=
  matchRuleSubjects ruleArgs [subject] fun pattern value => pathGlobMatch glob pathe value pattern options

structure ParsedPattern where
  toolName : Text
  argPattern : Option Text := none
deriving DecidableEq

def trimText (text : Text) : Text := (text.dropWhile isTrimmed).rdropWhile isTrimmed

def parsePattern (pattern : Text) : Except String ParsedPattern :=
  let trimmed := trimText pattern
  if trimmed = [] then .error "permission pattern: empty string"
  else if '(' ∉ trimmed then .ok { toolName := trimmed }
  else if trimmed.getLast? ≠ some ')' then
    .error ("permission pattern: missing closing paren in \"" ++ String.ofList pattern ++ "\"")
  else
    let toolName := trimmed.takeWhile (· ≠ '(')
    let argPattern := ((trimmed.dropWhile (· ≠ '(')).drop 1).dropLast
    if toolName = [] then
      .error ("permission pattern: empty tool name in \"" ++ String.ofList pattern ++ "\"")
    else if argPattern = [] then .ok { toolName := toolName }
    else .ok { toolName := toolName, argPattern := some argPattern }

inductive PermissionRuleMatchStrategy where
  | toolNameOnly
  | matchesRule
deriving DecidableEq

structure PermissionRuleMatch where
  pattern : Text
  strategy : PermissionRuleMatchStrategy
  hasRuleArgs : Bool
deriving DecidableEq

/-- The rule has a pattern, and the execution may have a matcher for what stands in its parentheses.
The outer option is none where an error is thrown. -/
def matchPermissionRule (glob : Picomatch) (pattern toolName : Text)
    (matchesRule : Option (Text → Option Bool)) : Option (Option PermissionRuleMatch) :=
  match parsePattern pattern with
  | .error _ => some none
  | .ok parsed =>
    match (if parsed.toolName = ['*'] then some true else glob.isMatch false toolName parsed.toolName) with
    | none => none
    | some false => some none
    | some true =>
      match parsed.argPattern with
      | none => some (some { pattern := pattern, strategy := .toolNameOnly, hasRuleArgs := false })
      | some argPattern =>
        match matchesRule with
        | none => some none
        | some test =>
          (test argPattern).map fun hit =>
            if hit then some { pattern := pattern, strategy := .matchesRule, hasRuleArgs := true } else none

end Echadron.Tool
