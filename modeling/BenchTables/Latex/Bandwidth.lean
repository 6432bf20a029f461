import BenchTables.Condensed.Row
import BenchTables.Latex.Markup
import BenchTables.Table.Distinct

/-!
# The bandwidth table

The table has a line per variant and rate, with the bandwidth per request for every size of the
database, and after the variants the published figures of related systems. The rates of a variant
stand in the order of their first appearance, the figures of a rate in ascending order of the
size; rows of equal size keep their order. `rateLines` is that arrangement, `bandwidthTable` its
text.
-/

namespace BenchTables.Latex

/-- The rows of one rate, by ascending size of the database. -/
def rowsAtRate (rate : UInt64) (rows : List BandwidthRow) : List BandwidthRow :=
  (rows.filter fun row => row.rate = rate).mergeSort fun a b => a.dbSize ≤ b.dbSize

def rateLines (rows : List BandwidthRow) : List (UInt64 × List BandwidthRow) :=
  (firstAppearances (rows.map (·.rate))).map fun rate => (rate, rowsAtRate rate rows)

def rateLine (label : String) (line : UInt64 × List BandwidthRow) : String :=
  let figures := line.2.map fun row => quantity (BandwidthRow.perRequest row) .kibibyte
  labelCommand label ++ " (" ++ Decimal.wordText line.1 ++ ") & " ++
    String.intercalate " & " figures ++ " " ++ rowEnd ++ "\n"

def variantLines (label : String) (rows : List BandwidthRow) : String :=
  String.join ((rateLines rows).map (rateLine label))

def spaceBelow : String := "\\addlinespace\n"

def mebibytes (figure : String) : String :=
  command "qty" [figure, "\\mebi\\byte"]

def kibibytes (figure : String) : String :=
  command "qty" [figure, "\\kibi\\byte"]

def referenceRows : List String :=
  ["Alpenhorn       & " ++ mebibytes "7.08" ++ " & " ++ mebibytes "7.17" ++ "& " ++
      mebibytes "7.53" ++ "& " ++ mebibytes "8.97" ++ "& " ++ mebibytes "14.10" ++ rowEnd ++
      "\\addlinespace",
    "Pudding w/o Nym & " ++ kibibytes "125.57" ++ " & " ++ kibibytes "125.57" ++ "         & " ++
      kibibytes "125.57" ++ "         & " ++ kibibytes "125.57" ++ "         &" ++
      kibibytes "125.57" ++ rowEnd,
    "Pudding w/ Nym  & " ++ mebibytes "6.99" ++ " & " ++ mebibytes "6.99" ++ " & " ++
      mebibytes "6.99" ++ " & " ++ mebibytes "6.99" ++ "      & " ++ mebibytes "6.99" ++ rowEnd ++
      "\\bottomrule"]

def headedSizes : List UInt64 :=
  [1024, 4096, 16384, 65536, 262144]

def openTable (factor width columns : String) : String :=
  command "scalebox" [factor] ++ "\x7b%\n" ++ command "begin" ["tabularx", width, columns]

def closeTable : String :=
  command "end" ["tabularx"] ++ "\n\x7d"

def bandwidthHead : String :=
  let heads := headedSizes.filterMap powerOfTwo?
  openTable "0.8" "0.65\\textwidth" "lrrrrr" ++ rowEnd ++ "\\toprule\n" ++
    "& " ++ command "multicolumn" ["5", "c", "Number of clients"] ++ rowEnd ++ "\n" ++
    "& " ++ String.intercalate " & " heads ++ rowEnd ++ "\\midrule\n"

/-- The bandwidth table of both variants. -/
def bandwidthTable (labels : RowLabels) (noAuth auth : List BandwidthRow) : String :=
  bandwidthHead ++
    variantLines labels.noAuth noAuth ++ spaceBelow ++
    variantLines labels.auth auth ++ spaceBelow ++
    String.join (referenceRows.map (· ++ "\n")) ++ closeTable

end BenchTables.Latex
