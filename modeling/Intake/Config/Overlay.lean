/-
# Options from settings

Models `LoadIngestOptions` and `ReadPositive`.  The group `ingest` of a table of settings is laid
over a base set of options.  What is absent stays as in the base; a threshold in megabytes takes the
place of an exact one; numbers for the metadata limit and the grace period that cannot be read are
ignored.  The result has to be valid.
-/
import Intake.Config.Settings
import Intake.Options

namespace Intake.Options

/-- The group that options are read from. -/
def group : Bytes := "ingest"

/-- Why settings do not give a set of options. -/
inductive Refusal where
  | notPositive (key value : Bytes)
  | invalid (fault : Fault)
  deriving DecidableEq, Repr

/-- What is reported about a refusal. -/
def Refusal.event : Refusal → Event
  | notPositive key value => .notPositive key value
  | invalid fault => .optionsRejected fault

/-- A positive number of 31 bits under a key; the current value when the key is absent. -/
def positive (s : Settings) (key : Bytes) (current : UInt32) : Except Refusal UInt32 :=
  if s.hasKey group key then
    match s.findInt group key with
    | some n =>
      if 0 < n then .ok (UInt32.ofNat n.toNat) else .error (.notPositive key (s.text group key []))
    | none => .error (.notPositive key (s.text group key []))
  else .ok current

def workersKey : Bytes := "workers"
def thresholdKey : Bytes := "large_file_threshold_mb"
def tempDirKey : Bytes := "temp_dir"
def modelPathKey : Bytes := "model_path"
def maxMetadataKey : Bytes := "max_metadata_bytes"
def timeoutKey : Bytes := "shutdown_timeout_ms"

/-- The options with everything that the settings say, before they are checked. -/
def merged (s : Settings) (base : Options) (workers thresholdMb : UInt32) : Options where
  workerCount := workers
  thresholdMb := thresholdMb
  thresholdExact := if s.hasKey group thresholdKey then 0 else base.thresholdExact
  tempDir := s.text group tempDirKey base.tempDir
  modelPath := s.text group modelPathKey base.modelPath
  maxMetadata := s.unsigned group maxMetadataKey base.maxMetadata
  shutdownTimeoutMs := s.unsigned group timeoutKey base.shutdownTimeoutMs

/-- Lays settings over a base. -/
def overlay (s : Settings) (base : Options) : Except Refusal Options :=
  match positive s workersKey base.workerCount with
  | .error e => .error e
  | .ok workers =>
    match positive s thresholdKey base.thresholdMb with
    | .error e => .error e
    | .ok thresholdMb =>
      let o := merged s base workers thresholdMb
      match o.fault? with
      | some fault => .error (.invalid fault)
      | none => .ok o

/-- Checks options and reports the fault found. -/
def validate (o : Options) (log : Log) : Except ConfigError Unit × Log :=
  match o.fault? with
  | some fault => (.error .invalidValue, log.record (.optionsRejected fault))
  | none => (.ok (), log)

/-- Lays settings over a base and reports why they were refused. -/
def load (s : Settings) (base : Options) (log : Log) : Except ConfigError Options × Log :=
  match overlay s base with
  | .ok o => (.ok o, log)
  | .error refusal => (.error .invalidValue, log.record refusal.event)

/-- What comes out of an overlay is valid. -/
theorem valid_of_overlay {s : Settings} {base o : Options} (h : overlay s base = .ok o) :
    o.Valid := by
  unfold overlay at h
  split at h
  · simp at h
  · split at h
    · simp at h
    · simp only at h
      split at h
      · simp at h
      · rename_i hf
        simp only [Except.ok.injEq] at h
        subst h
        exact hf

end Intake.Options
