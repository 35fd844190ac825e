/-!
# Faults

What a request, or the preparation for one, can end in. Only faults that may pass are worth another
try: a broken connection, too many requests, and a failure of the server.
-/

namespace StrategyForm

inductive Fault where
  /-- The settings do not allow a request. -/
  | config (message : String)
  /-- No response arrived. -/
  | network (message : String)
  /-- A response with a status that tells of a failure. -/
  | http (status : Nat) (message : String)
  /-- The thing asked for does not exist. -/
  | notFound (message : String)
  /-- The response could not be read. -/
  | decode (message : String)
deriving DecidableEq, Repr, Inhabited

namespace Fault

def message : Fault → String
  | config m => "설정 에러: " ++ m
  | network m => "네트워크 에러: " ++ m
  | http status m => "HTTP " ++ toString status ++ " 에러: " ++ m
  | notFound m => "찾을 수 없음: " ++ m
  | decode m => "응답 해석 에러: " ++ m

/-- The fault may pass, so another try is worth it. -/
def isRetryable : Fault → Bool
  | network _ => true
  | http status _ => status == 429 || 500 ≤ status
  | _ => false

def isNotFound : Fault → Bool
  | notFound _ => true
  | _ => false

end Fault

end StrategyForm
