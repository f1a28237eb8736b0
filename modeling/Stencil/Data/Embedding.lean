import Stencil.Data.Conversion

/-! # The meaning of data

What value data stands for, finished values standing for themselves and absence for a part that
stands for none. Conversion by way of numbered handles arrives at the same values. -/
namespace Stencil.Datum

mutual

/-- The value that data stands for, or the failure that prevents it. -/
def embed : Datum → Except Error Value
  | unit => .ok .absent
  | bool b => .ok (.bool b)
  | int n => .ok (.ofInt n)
  | float x => .ok (.float x)
  | text s => .ok (.text s)
  | bytes content => .ok (.seq (content.map fun b => .ofNat b.toNat))
  | wrapped content => .ok ((embed content).toOption.getD .absent)
  | seq items => .ok (.seq (embedItems items))
  | map entries => .ok (.record (Record.ofList (embedEntries entries)))
  | fields entries => .ok (.record (Record.ofList (embedFields entries)))
  | case name => .ok (.text name)
  | caseOf name content => .ok (.record [(name, (embed content).toOption.getD .absent)])
  | caseSeq name items => .ok (.record [(name, .seq (embedItems items))])
  | caseFields name entries => .ok (.record [(name, .record (Record.ofList (embedFields entries)))])
  | failing message | failingAfter _ message => .error (.unserializable message)
  | value v => .ok v

def embedItems : List Datum → List Value
  | [] => []
  | d :: rest => (embed d).toOption.getD .absent :: embedItems rest

def embedEntries : List (Datum × Datum) → List (String × Value)
  | [] => []
  | (key, d) :: rest => match embed key with
    | .ok k => (keyText k, (embed d).toOption.getD .absent) :: embedEntries rest
    | .error _ => embedEntries rest

def embedFields : List (String × Datum) → List (String × Value)
  | [] => []
  | (name, d) :: rest => (name, (embed d).toOption.getD .absent) :: embedFields rest

end

end Stencil.Datum
