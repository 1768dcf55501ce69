import Lepd.Foundation.Shares
import Lepd.Procrank.Report

/-!
# The pages of processes

How the usage of a process comes from its page map and from how often the kernel
says that each page frame is mapped. Allocation is taken to succeed.
-/

namespace Lepd
namespace Procrank

open Foundation
open Ps (Text)

def Usage.add (a b : Usage) : Usage :=
  ⟨a.vss + b.vss, a.rss + b.rss, a.pss + b.pss, a.uss + b.uss, a.swap + b.swap⟩

/-- `pm_kernel_t`, with the answers of `pm_kernel_count` and of
`pm_kernel_flags` for a page frame. -/
structure PmKernel where
  pagesize : UInt64
  count : UInt64 -> Except Int UInt64
  flags : UInt64 -> Except Int UInt64

structure PmMap where
  start : UInt64
  stop : UInt64

/-- `pm_process_t` -/
structure PmProcess where
  maps : List PmMap
  /-- The entries that can be read of `/proc/<pid>/pagemap` from a page on, at
  most so many. -/
  read : UInt64 -> UInt64 -> Except Int (List UInt64)
  /-- What is in memory that was just allocated. -/
  memory : Nat -> UInt64

def bits (x offset width : UInt64) : UInt64 :=
  (x >>> offset) &&& ((1 <<< width) - 1)

def present (x : UInt64) : Bool :=
  bits x 63 1 != 0

def swapped (x : UInt64) : Bool :=
  bits x 62 1 != 0

def pfn (x : UInt64) : UInt64 :=
  bits x 0 55

def toInt (n : UInt64) : Int :=
  n.toUInt32.toBitVec.toInt

def pmProcessPagemapRange (ker : PmKernel) (proc : PmProcess)
    (low high : UInt64) : Except Int (List UInt64) :=
  if low > high then .error (-1)
  else if low = high then .ok []
  else
    let firstpage := low / ker.pagesize
    let numpages := (high - low) / ker.pagesize
    match proc.read firstpage numpages with
    | .error error => .error error
    | .ok [] => .ok []
    | .ok range =>
        if ((8 * range.length : Nat) : Int) < toInt (numpages * 8) then .error (-1)
        else .ok (range ++ (List.range (numpages.toNat - range.length)).map
          proc.memory)

section Usage

variable (ker : PmKernel) (flagsMask requiredFlags : UInt64)

def required (frame : UInt64) : Except Int Bool :=
  if flagsMask ≠ 0 then (ker.flags frame).map (fun flags =>
    decide (flags &&& flagsMask = requiredFlags)) else .ok true

def counted (frame : UInt64) (usage : Usage) : Except Int Usage :=
  (ker.count frame).map (fun count =>
    { usage with
      rss := usage.rss + (if 1 <= count then ker.pagesize else 0)
      pss := usage.pss + (if 1 <= count then ker.pagesize / count else 0)
      uss := usage.uss + (if count = 1 then ker.pagesize else 0) })

def addPage (usage : Usage) (entry : UInt64) : Except Int Usage :=
  let usage := { usage with vss := usage.vss + ker.pagesize }
  if !present entry then .ok usage
  else if !swapped entry then do
    let yes <- required ker flagsMask requiredFlags (pfn entry)
    if yes then counted ker (pfn entry) usage else .ok usage
  else .ok { usage with swap := usage.swap + ker.pagesize }

def pmMapUsageFlags (proc : PmProcess) (map : PmMap) : Except Int Usage := do
  let pagemap <- pmProcessPagemapRange ker proc map.start map.stop
  pagemap.foldlM (addPage ker flagsMask requiredFlags) .zero

def pmProcessUsageFlags (proc : PmProcess) : Except Int Usage :=
  proc.maps.foldlM (fun usage map =>
    (pmMapUsageFlags ker flagsMask requiredFlags proc map).map usage.add) .zero

end Usage

def pmPageReferenced : UInt64 :=
  (1 : UInt64) <<< 2

def addReferenced (ker : PmKernel) (ws : Usage) (entry : UInt64) :
    Except Int Usage := do
  let flags <- ker.flags (pfn entry)
  if flags &&& pmPageReferenced = 0 then return ws
  let count <- ker.count (pfn entry)
  let ws := { ws with vss := ws.vss + ker.pagesize }
  if swapped entry then return ws
  return { ws with
    rss := ws.rss + (if 1 <= count then ker.pagesize else 0)
    pss := ws.pss + (if 1 <= count then ker.pagesize / count else 0)
    uss := ws.uss + (if count = 1 then ker.pagesize else 0) }

/-- `pm_map_workingset` answers 0 also where a page can not be looked up, and
then leaves `ws_out` as it is. -/
def pmMapWorkingset (ker : PmKernel) (proc : PmProcess) (map : PmMap)
    (wsOut : Usage) : Except Int Usage := do
  let pagemap <- pmProcessPagemapRange ker proc map.start map.stop
  match pagemap.foldlM (addReferenced ker) .zero with
  | .ok ws => return ws
  | .error _ => return wsOut

def workingsetMaps (ker : PmKernel) (proc : PmProcess) : List PmMap -> Usage ->
    Usage -> Except Int Usage
  | [], ws, _ => .ok ws
  | map :: maps, ws, mapWs => do
      let mapWs <- pmMapWorkingset ker proc map mapWs
      workingsetMaps ker proc maps (ws.add mapWs) mapWs

/-- `pm_process_workingset`, without a reset; `stack` is in `map_ws` before it
is set. -/
def pmProcessWorkingset (ker : PmKernel) (proc : PmProcess) (stack : Usage) :
    Except Int Usage :=
  workingsetMaps ker proc proc.maps .zero stack

/-- What a system tells `procrank_main`, down to the page frames. -/
structure PageSystem where
  ker : PmKernel
  pids : List Int
  /-- `pm_process_create` -/
  process : Int -> Except Int PmProcess
  stack : Usage
  cmdline : Int -> Except Nat Text
  memInfo : Text

def usageOr (result : Except Int Usage) : Usage :=
  match result with
  | .ok usage => usage
  | .error _ => .zero

/-- An error leaves the usage as `pm_memusage_zero` has made it. -/
def PageSystem.kernel (sys : PageSystem) : Kernel where
  pids := some sys.pids
  created := fun pid => (sys.process pid).isOk
  usageFlags := fun pid flagsMask requiredFlags =>
    usageOr (sys.process pid >>= pmProcessUsageFlags sys.ker flagsMask
      requiredFlags)
  workingset := fun pid => usageOr (sys.process pid >>= fun proc =>
    pmProcessWorkingset sys.ker proc sys.stack)
  cmdline := sys.cmdline
  memInfo := sys.memInfo

end Procrank
end Lepd
