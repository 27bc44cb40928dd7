import Mathlib.Data.Nat.Notation

/-! An application package: a manifest, the bundle, its source map, and Components with native
images. -/

namespace Tysel.Package

abbrev Bytes := List UInt8

def componentAbiVersion : String := "0.4.0"

structure PackageManifest where
  formatVersion : ℕ
  runtimeVersion : String
  applicationId : String
  entrypoint : String
  executionProfile : String
  listen : String
  memoryLimitBytes : ℕ
  cpuMsPerTurn : ℕ
  requestTimeoutMs : ℕ
  bundleHash : String
  maxRequestBytes : ℕ
  maxResponseBytes : ℕ
  websocket : Bool
  workers : ℕ
  maxInFlight : ℕ
  http1 : Bool
  http2 : Bool
  sqlitePath : String
  secretNames : List String
  fetchHosts : List String
  postgres : List String
  redis : List String
  fsRead : List String
  fsWrite : List String
  jsonLogs : Bool
  deriving DecidableEq

structure PackagedAot where
  target : String
  wasmtimeVersion : String
  engineCompatibilityHash : UInt64
  sourceSha256 : Vector UInt8 32
  bytes : Bytes
  deriving DecidableEq

structure PackagedComponent where
  name : String
  abiVersion : String
  source : Bytes
  aot : List PackagedAot
  deriving DecidableEq

structure Tap where
  manifest : PackageManifest
  bundle : Bytes
  sourceMap : Bytes
  components : List PackagedComponent
  deriving DecidableEq

end Tysel.Package
