import EndpointCatalog.Report.Basic

/-! The report as comma-separated values: a header and one record for each endpoint. A
field with a comma, a quote or a line feed in it is quoted, and a quote inside a
quoted field is written twice. -/

namespace EndpointCatalog.Report.Csv

def needsQuotes (field : List Char) : Bool :=
  field.any fun c => c == ',' || c == '\x22' || c == '\n'

/-- Writes each quote twice. -/
def doubled (field : List Char) : List Char :=
  field.flatMap fun c => if c == '\x22' then ['\x22', '\x22'] else [c]

def encodeField (field : List Char) : List Char :=
  if needsQuotes field then '\x22' :: doubled field ++ ['\x22'] else field

def encodeRecord (fields : List String) : List Char :=
  [','].intercalate (fields.map fun f => encodeField f.toList) ++ ['\n']

def header : List String := ["folder", "controller", "url", "redirect"]

def pageRecords (p : PageEntry) : List (List String) :=
  p.endpoints.map fun e => [p.folder, p.controller, e.url, e.redirect]

/-- The header and the records of a report. -/
def table (r : Report) : List (List String) := header :: r.pages.flatMap pageRecords

def render (r : Report) : String := String.ofList ((table r).flatMap encodeRecord)

end EndpointCatalog.Report.Csv
