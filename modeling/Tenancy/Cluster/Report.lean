import Tenancy.Json.Record

/-!
# Reports of an outcome

The API server reports what became of a request: success or failure, with a code, a message and a
reason, and perhaps with details about the object and the causes. A review answers with such a report,
and so may a deletion. Nothing of a report is kept, but it has to be one.
-/

namespace Tenancy.Cluster.Report

def causeRecord : Record Unit :=
  Record.const (fun (_ _ _ : String) => ())
    |>.also (.default "reason" Reading.text "")
    |>.also (.default "message" Reading.text "")
    |>.also (.default "field" Reading.text "")

/-- The object that an outcome is about, its causes, and when to ask again. -/
def detailsRecord : Record Unit :=
  Record.const (fun (_ _ _ _ : String) (_ : List Unit) (_ : Nat) => ())
    |>.also (.default "name" Reading.text "")
    |>.also (.default "group" Reading.text "")
    |>.also (.default "kind" Reading.text "")
    |>.also (.default "uid" Reading.text "")
    |>.also (.default "causes" (Reading.list causeRecord.decode) [])
    |>.also (.default "retryAfterSeconds" Reading.word32 0)

def record : Record Unit :=
  Record.const (fun (_ : Option Bool) (_ : Nat) (_ _ : String) (_ : Option Unit) => ())
    |>.also (.optional "status" (Reading.choice fun
      | "Success" => some true
      | "Failure" => some false
      | _ => none))
    |>.also (.default "code" Reading.word16 0)
    |>.also (.default "message" Reading.text "")
    |>.also (.default "reason" Reading.text "")
    |>.also (.optional "details" detailsRecord.decode)

def decode : Reading.Decoder Unit := record.decode

end Tenancy.Cluster.Report
