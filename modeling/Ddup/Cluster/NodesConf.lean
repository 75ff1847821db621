/-
Ddup.Cluster.NodesConf — the lines of `nodes.conf`: one for each node, with its id, address, flags,
master, times, epoch, link state and slots.

The text goes to a fresh reply buffer that grows by doubling; a line that does not fit the room that
was reserved for it makes the rendering fail. The slots of a line are cut to 255 bytes.
-/
import Ddup.Cluster.State

namespace Ddup.Cluster

open Ddup.Lib Ddup.Command Ddup.Resp

/-! ## Flags -/

/-- The flags in the order they are rendered, with their words. -/
def flagWords : List (NodeFlag × Bytes) :=
  [(.myself, text "myself"), (.master, text "master"), (.slave, text "slave"),
    (.handshake, text "handshake"), (.noaddr, text "noaddr"), (.disconnected, text "disconnected"),
    (.pfail, text "fail?"), (.fail, text "fail")]

/-- `flags_render`: each word with a comma, the last comma taken off. -/
def flagsRender (f : Flags) : Bytes :=
  match flagWords.flatMap fun w => if f.has w.1 then w.2 ++ [44] else [] with
  | [] => text "noflags"
  | out => out.dropLast

/-- `strnstr`: whether the text has the word somewhere in it. -/
def strnstr (s word : Bytes) : Bool := s.tails.any fun t => word.isPrefixOf t

def flagsParse (s : Bytes) : Flags :=
  let raise (f : Flags) (w : NodeFlag × Bytes) := if strnstr s w.2 then f.raise w.1 else f
  let f := (flagWords.take 6).foldl raise 0
  if strnstr s (text "fail?") then f.raise .pfail
  else if strnstr s (text "fail") then f.raise .fail
  else f

/-! ## Rendering -/

def growCap (needed : Nat) : Nat → Nat → Nat
  | 0, cap => cap
  | fuel + 1, cap => if cap < needed then growCap needed fuel (cap * 2) else cap

/-- `resp_buf_reserve`: the capacity of a buffer with `len` bytes after room for `n` more is made. -/
def respBufReserve (cap len n : Nat) : Nat :=
  if len + n ≤ cap then cap else growCap (len + n) (len + n) (if cap = 0 then 256 else cap)

def addrText (n : ClusterNode) : Bytes :=
  n.ip.1 ++ 58 :: (u64ToStr n.port.toNat ++ 64 :: u64ToStr n.busPort.toNat)

def linkText (n : ClusterNode) : Bytes :=
  if n.flags.has .disconnected then text "disconnected" else text "connected"

def lineFields (n : ClusterNode) : List Bytes :=
  [addrText n, flagsRender n.flags, n.masterId.1, u64ToStr n.pingSentMs.toNat,
    u64ToStr n.lastSeenMs.toNat, u64ToStr n.epoch.toNat, linkText n]

def nodeLine (e : NodeId × ClusterNode) : Bytes :=
  e.1.1 ++ ((lineFields e.2).flatMap (32 :: ·) ++ 32 :: (clusterSlotsRender e.2.slots 256).getD [])

/-- The loop of `cluster_nodes_render`, with the capacity of the buffer and what is in it. -/
def nodesRenderLoop : Nat → Bytes → List (NodeId × ClusterNode) → Option Bytes
  | _, out, [] => some out
  | cap, out, e :: es =>
    let cap := respBufReserve cap out.length 512
    let line := nodeLine e ++ [10]
    if cap - out.length ≤ line.length then none else nodesRenderLoop cap (out ++ line) es

def clusterNodesRender (t : NodeTable) : Option Bytes := nodesRenderLoop 0 [] t.entries

/-! ## Parsing -/

def token (s : Bytes) : Bytes × Bytes :=
  let s := s.dropWhile (· == 32)
  (s.takeWhile (· != 32), s.dropWhile (· != 32))

def u64Field (s : Bytes) : Option (UInt64 × Bytes) := do
  let (t, rest) := token s
  if t = [] then none
  else
    let v ← digitLoop u64Ok 0 t
    return (UInt64.ofNat v, rest)

/-- The overflow test of `parse_u16_token`. -/
def u16Ok (v d : Nat) : Bool := v ≤ (65535 - d) / 10

def parseU16Token (s : Bytes) : Option UInt16 :=
  if s = [] then none else (digitLoop u16Ok 0 s).map UInt16.ofNat

def cString (b : Bytes) : Bytes := b.takeWhile (· != 0)

/-- The number behind a mark; there may be neither. -/
def portBehind : Bytes → Option UInt16
  | [] => some 0
  | _ :: b => parseU16Token b

/-- The address `ip:port@busport`; the parts behind the colon and behind the `@` may be missing. -/
def parseAddr (addr : Bytes) : Option (CStr 64 × UInt16 × UInt16) := do
  let addr := cString addr
  let ip := addr.takeWhile (· != 58)
  let tail := addr.dropWhile (· != 58)
  let bus := addr.dropWhile (· != 64)
  -- an `@` before the colon, or without one
  if 64 ≤ ip.length ∨ ip.contains 64 then none
  else
    let busPort ← portBehind bus
    let port ← portBehind (tail.takeWhile (· != 64))
    return (CStr.print 64 ipRoom ip, port, busPort)

structure NodeLine where
  id : Bytes
  addr : Bytes
  flags : Bytes
  master : Bytes
  ping : UInt64
  pong : UInt64
  epoch : UInt64
  slots : Bytes

/-- The first part of `cluster_nodes_parse_line`: the fields, each within its buffer. -/
def splitLine (line : Bytes) : Option NodeLine := do
  if line.length < 40 then none
  else
    let (addr, rest) := token (line.drop 40)
    if addr = [] ∨ 128 ≤ addr.length then none
    else
      let (flags, rest) := token rest
      if flags = [] ∨ 64 ≤ flags.length then none
      else
        let (master, rest) := token rest
        if 41 ≤ master.length then none
        else
          let (ping, rest) ← u64Field rest
          let (pong, rest) ← u64Field rest
          let (epoch, rest) ← u64Field rest
          let (_, rest) := token rest
          let slots := rest.dropWhile (· == 32)
          if 512 ≤ slots.length then none
          else return ⟨line.take 40, addr, flags, master, ping, pong, epoch, slots⟩

/-- `cluster_nodes_parse_line`: the table with the node of the line. -/
def clusterNodesParseLine (t : NodeTable) (line : Bytes) : Option NodeTable := do
  let l ← splitLine line
  let (ip, port, busPort) ← parseAddr l.addr
  if h : IdValid l.id then
    let (t, i) ← t.add ⟨l.id, h⟩
    return t.modify i fun n =>
      { n with
        ip := ip
        port := port
        busPort := busPort
        flags := flagsParse (cString l.flags)
        pingSentMs := l.ping
        lastSeenMs := l.pong
        epoch := l.epoch
        masterId := if cString l.master = [] then n.masterId
          else CStr.print 41 idRoom l.master
        slots := clusterSlotsParse (cString l.slots) }
  else none

/-- The lines of a text into an empty table; a line that is refused is skipped. -/
def clusterNodesLoad (s : Bytes) : NodeTable :=
  (words (· == 10) s).foldl (fun t line => (clusterNodesParseLine t line).getD t)
    ⟨[], List.nodup_nil, Nat.zero_le _⟩

end Ddup.Cluster
