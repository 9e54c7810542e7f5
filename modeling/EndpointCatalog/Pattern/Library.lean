import EndpointCatalog.Pattern.Basic

/-! The built-in patterns. Endpoint patterns find routes that start with `api/` in
quotes, in template literals, in assignments and, as a fallback, anywhere at the
start of a word. Redirect patterns find the target of a `$state.go` call in each
form that the call is written in. Two more patterns find references to directive
scripts and the routes inside those scripts. -/

namespace EndpointCatalog.Pattern

open CharSet Atom

/-! ### Characters -/

def quotes : List Char := ['\x27', '\x22']

def backtick : List Char := ['\x60']

def quote : List Atom := [one (oneOf quotes)]

def tick : List Atom := [one (oneOf backtick)]

def blanks : List Atom := [many Text.isBlank]

/-- Characters of a route in plain notation. -/
def routeChar : CharSet := fun c => Text.isWordChar c || c == '/' || c == '-'

/-- Characters that can stand in the path of a directive script. -/
def referenceChar : CharSet := fun c => Text.isWordChar c || oneOf ['.', '/', '\\', '-'] c

/-! ### Endpoints -/

/-- A route in quotes, with or without a slash in front. -/
def relativeRoute (lead : List Atom) : List Branch :=
  [⟨lead ++ quote, word "api/" ++ run (noneOf ('?' :: quotes)), quote⟩,
   ⟨lead ++ quote, word "/api/" ++ run (noneOf ('?' :: quotes)), quote⟩]

/-- A route anywhere, either with its slash or from the start of a word. -/
def looseRoute (set : CharSet) : List Branch :=
  [⟨[], word "/api/" ++ run set, []⟩, ⟨[], boundary :: (word "api/" ++ run set), []⟩]

def quotedPath : Pattern where
  name := "quoted_api_path"
  branches := [⟨quote, word "/api/" ++ run routeChar, quote⟩]
  fallback := false

def quotedQuery : Pattern where
  name := "quoted_api_query"
  branches := [⟨quote, word "/api/" ++ run (noneOf ('?' :: quotes)) ++ word "?" ++
    run (noneOf quotes), quote⟩]
  fallback := false

def templatePath : Pattern where
  name := "template_api_path"
  branches := [⟨tick, word "/api/" ++ run (noneOf backtick), tick⟩]
  fallback := false

def scopeAssignment : Pattern where
  name := "scope_api_assignment"
  branches := [⟨word "$scope." ++ run Text.isWordChar ++ word "api" ++ blanks ++ word "=" ++
    blanks ++ quote, run (noneOf quotes), quote⟩]
  fallback := false

def quotedRelative : Pattern where
  name := "quoted_relative_api"
  branches := relativeRoute []
  fallback := false

def urlProperty : Pattern where
  name := "url_property"
  branches := relativeRoute (word "url:" ++ blanks)
  fallback := false

/-- The characters at which a bare route ends, white space aside. -/
def stopChars : List Char := quotes ++ backtick ++ ['?', ';', ',', ')']

def barePath : Pattern where
  name := "bare_api_path"
  branches := looseRoute (andNotBlank (noneOf stopChars))
  fallback := true

def endpoints : List Pattern :=
  [quotedPath, quotedQuery, templatePath, scopeAssignment, quotedRelative, urlProperty, barePath]

/-! ### Redirects -/

def call : List Atom := word "$state.go("

/-- A quoted target without blanks, commas and closing parentheses. -/
def plainTarget : List Atom := run (andNotBlank (noneOf (quotes ++ [',', ')'])))

def goQuoted : Pattern where
  name := "state_go_quoted"
  branches := [⟨call ++ quote, plainTarget, quote ++ blanks ++ word ")"⟩]
  fallback := false

def goQuotedArgs : Pattern where
  name := "state_go_quoted_args"
  branches := [⟨call ++ quote, plainTarget, quote ++ blanks ++ word ","⟩]
  fallback := false

def goTemplate : Pattern where
  name := "state_go_template"
  branches := [⟨call ++ tick, run (noneOf backtick), tick ++ word ")"⟩]
  fallback := false

def goIdentifier : Pattern where
  name := "state_go_identifier"
  branches := [⟨call ++ blanks, run Text.isWordChar, blanks ++ word ")"⟩]
  fallback := false

def goOptions : Pattern where
  name := "state_go_options"
  branches := [⟨call ++ blanks ++ quote, run (noneOf quotes),
    quote ++ word "," ++ blanks ++ [one (oneOf ['\x7b'])]⟩]
  fallback := false

def redirects : List Pattern := [goQuoted, goQuotedArgs, goTemplate, goIdentifier, goOptions]

/-! ### Directive scripts -/

def directiveReference : Pattern where
  name := "directive_reference"
  branches := [⟨[], [many referenceChar] ++ word "directives" ++ [one (oneOf ['/', '\\'])] ++
    run Text.isWordChar ++ word ".js" ++ [boundary], []⟩]
  fallback := false

def directiveEndpoint : Pattern where
  name := "directive_endpoint"
  branches := looseRoute (noneOf ('?' :: quotes))
  fallback := false

end EndpointCatalog.Pattern
