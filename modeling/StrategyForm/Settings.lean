import StrategyForm.Log
import StrategyForm.Wire.Record

/-!
# Settings

The settings of the client, the cache and the log, with their built-in values.
-/

namespace StrategyForm
open Json Json.Decoder Wire

structure ApiSettings where
  /-- The address that all endpoints are under. -/
  baseUrl : String := "http://127.0.0.1:3000/api/v1"
  timeoutSecs : UInt64 := 10
  /-- Tries after the first one. -/
  maxRetries : UInt32 := 2
  /-- The wait before a retry, in milliseconds, is this times the number of the retry. -/
  retryBackoffMs : UInt64 := 300
deriving DecidableEq, Repr, Inhabited

structure CacheSettings where
  ttlSecs : UInt64 := 300
deriving DecidableEq, Repr, Inhabited

structure LogSettings where
  level : String := "info"
  format : String := "pretty"
deriving DecidableEq, Repr, Inhabited

structure Settings where
  api : ApiSettings := {}
  cache : CacheSettings := {}
  logging : LogSettings := {}
deriving DecidableEq, Repr, Inhabited

namespace ApiSettings

def timeoutMs (s : ApiSettings) : Nat := s.timeoutSecs.toNat * 1000

/-- The wait before a retry, in milliseconds; the first retry has number 1. -/
def backoffMs (s : ApiSettings) (attempt : Nat) : Nat := s.retryBackoffMs.toNat * attempt

def slots : List (Slot ApiSettings) :=
  [ allow "base_url" Decoder.text fun v s => { s with baseUrl := v },
    allow "timeout_secs" Decoder.uint64 fun v s => { s with timeoutSecs := v },
    allow "max_retries" Decoder.uint32 fun v s => { s with maxRetries := v },
    allow "retry_backoff_ms" Decoder.uint64 fun v s => { s with retryBackoffMs := v } ]

def decoder : Decoder ApiSettings := record slots {}

def toJson (s : ApiSettings) : Json :=
  .object <|
    always "base_url" (.string s.baseUrl) ++
    always "timeout_secs" (.ofInt s.timeoutSecs.toNat) ++
    always "max_retries" (.ofInt s.maxRetries.toNat) ++
    always "retry_backoff_ms" (.ofInt s.retryBackoffMs.toNat)

end ApiSettings

namespace CacheSettings

def ttlMs (s : CacheSettings) : Nat := s.ttlSecs.toNat * 1000

def slots : List (Slot CacheSettings) :=
  [allow "ttl_secs" Decoder.uint64 fun v s => { s with ttlSecs := v }]

def decoder : Decoder CacheSettings := record slots {}

def toJson (s : CacheSettings) : Json := .object (always "ttl_secs" (.ofInt s.ttlSecs.toNat))

end CacheSettings

namespace LogSettings

/-- What the log is set up with; an unknown format is the pretty one. -/
def toLogConfig (s : LogSettings) : LogConfig where
  level := s.level
  format := (LogFormat.parse? s.format).getD .pretty

def slots : List (Slot LogSettings) :=
  [ allow "level" Decoder.text fun v s => { s with level := v },
    allow "format" Decoder.text fun v s => { s with format := v } ]

def decoder : Decoder LogSettings := record slots {}

def toJson (s : LogSettings) : Json :=
  .object (always "level" (.string s.level) ++ always "format" (.string s.format))

end LogSettings

namespace Settings

def slots : List (Slot Settings) :=
  [ allow "api" ApiSettings.decoder fun v s => { s with api := v },
    allow "cache" CacheSettings.decoder fun v s => { s with cache := v },
    allow "logging" LogSettings.decoder fun v s => { s with logging := v } ]

def decoder : Decoder Settings := record slots {}

def toJson (s : Settings) : Json :=
  .object <|
    always "api" s.api.toJson ++
    always "cache" s.cache.toJson ++
    always "logging" s.logging.toJson

end Settings

end StrategyForm
