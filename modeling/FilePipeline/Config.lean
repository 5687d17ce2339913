import FilePipeline.Heap.Layout
import FilePipeline.Text.Inspect

/-! # Configuration

What a dispatcher is started with. `Config.validate` turns down the settings no dispatcher can run
with and names the first of them. -/

namespace FilePipeline

/-- The settings of a dispatcher. -/
structure Config where
  /-- How many submitted pieces of work each queue holds before submitters wait. -/
  queueCapacity : Nat := 8
  /-- Whether each worker keeps to a core of its own. -/
  pinThreads : Bool := false
  ioThreadName : String := "lzfs-io"
  compressionThreadName : String := "lzfs-compress"
  bufferAlignment : Nat := defaultAlignment
  deriving DecidableEq, Repr, Inhabited

/-- Why a configuration was turned down. -/
inductive ConfigError where
  | zeroCapacity
  | badAlignment (align : Nat)
  | emptyName
  deriving DecidableEq, Repr

def ConfigError.message : ConfigError → String
  | .zeroCapacity => "queue capacity must be at least 1"
  | .badAlignment align => s!"buffer alignment {align} is not a power of two"
  | .emptyName => "worker thread names must not be empty"

namespace Config

/-- The default configuration with another queue capacity. -/
def withCapacity (n : Nat) : Config := { queueCapacity := n }

/-- Accepts the configurations a dispatcher can run with. -/
def validate (c : Config) : Except ConfigError Unit :=
  if c.queueCapacity = 0 then .error .zeroCapacity
  else if !isPowerOfTwo c.bufferAlignment then .error (.badAlignment c.bufferAlignment)
  else if c.ioThreadName.isEmpty || c.compressionThreadName.isEmpty then .error .emptyName
  else .ok ()

def inspect (c : Config) : String :=
  Text.record "DispatcherConfig"
    [("queue_capacity", toString c.queueCapacity), ("pin_threads", Text.truth c.pinThreads),
      ("io_thread_name", Text.quoted c.ioThreadName),
      ("compression_thread_name", Text.quoted c.compressionThreadName),
      ("buffer_alignment", toString c.bufferAlignment)]

end Config

end FilePipeline
