import OrtTunnel.Core.Lockstep
import OrtTunnel.Net.Session

namespace OrtTunnel.Net
open BigEndian Proto OrtTunnel.Core

def chunkSize : ℕ := 16 * 1024

-- The loop from the plain socket into the tunnel; `sending` holds what `write_all` still owes.
inductive Up where
  | reading
  | sealing (chunk : Bytes)
  | sending (bytes : Bytes) (closing : Bool)
  | done
  deriving DecidableEq

-- The loop from the tunnel to the plain socket; `got` is what `read_exact` has gathered so far.
inductive Down where
  | early (bytes : Bytes) (expectAck : Option (Arr 64))
  | reading (expectAck : Option (Arr 64)) (got : Bytes)
  | opening (ct : Bytes)
  | writing (pt : Bytes)
  | closed
  | returned
  | failed (e : OrtError)
  deriving DecidableEq

structure Lane where
  consumed : Bytes
  up : Up
  channel : Bytes
  shut : Bool
  down : Down
  written : Bytes
  deriving DecidableEq

structure Tunnel where
  peers : Duplex
  lane : Direction → Lane

def dataRecord (d : Direction) (ct : Bytes) : Frame := .dataRecord d.toU8 ct

def onBody (expectAck : Option (Arr 64)) (body : Bytes) : Down :=
  match expectAck with
  | some expected =>
    match Frame.decode body with
    | .error e => .failed (.proto e)
    | .ok (.serverAck ekHash) =>
      if ekHash ≠ expected.val then .failed .keyConfirmation else .reading none []
    | .ok _ => .failed (.unexpected "expected ServerAck")
  | none =>
    match Frame.decode body with
    | .error e => .failed (.proto e)
    | .ok (.dataRecord _ ciphertext) => .opening ciphertext
    | .ok .close => .closed
    | .ok _ => .failed (.unexpected "expected DataRecord")

def onReadFrame (expectAck : Option (Arr 64)) : Except IoError (Option Bytes) → Down
  | .error e => .failed (.io e)
  | .ok none => if expectAck.isSome then .returned else .closed
  | .ok (some body) => onBody expectAck body

-- `read_frame` would run into the end of what has arrived, so it waits for more.
def waiting (got : Bytes) : Bool :=
  match readFrame got with
  | (.ok none,_) => true
  | (.error .unexpectedEof,_) => true
  | _ => false

def onOpen : Except Error Bytes → Down
  | .ok pt => .writing pt
  | .error e => .failed (.io (.invalidText e.message))

inductive TunnelEvent where
  | reads (d : Direction) (chunk : Bytes)
  | ends (d : Direction)
  | seals (d : Direction)
  | pushes (d : Direction)
  | pulls (d : Direction)
  | takes (d : Direction)
  | opens (d : Direction)
  | writes (d : Direction)
  deriving DecidableEq

namespace Lane

def read (l : Lane) (chunk : Bytes) : Lane :=
  ⟨l.consumed ++ chunk,.sealing chunk,l.channel,l.shut,l.down,l.written⟩

def setUp (l : Lane) (up : Up) : Lane := ⟨l.consumed,up,l.channel,l.shut,l.down,l.written⟩

def setDown (l : Lane) (down : Down) : Lane := ⟨l.consumed,l.up,l.channel,l.shut,down,l.written⟩

def push (l : Lane) : Lane :=
  match l.up with
  | .sending (b :: rest) closing =>
    ⟨l.consumed,.sending rest closing,l.channel ++ [b],l.shut,l.down,l.written⟩
  | .sending [] false => l.setUp .reading
  | .sending [] true => ⟨l.consumed,.done,l.channel,true,l.down,l.written⟩
  | _ => l

def pull (l : Lane) : Lane :=
  match l.down,l.channel with
  | .reading ack got,b :: rest =>
    if waiting got then ⟨l.consumed,l.up,rest,l.shut,.reading ack (got ++ [b]),l.written⟩ else l
  | _,_ => l

def take (l : Lane) : Lane :=
  match l.down with
  | .reading ack got =>
    if waiting got ∧ ¬ (l.shut ∧ l.channel = []) then l
    else l.setDown (onReadFrame ack (readFrame got).1)
  | _ => l

def write (l : Lane) : Lane :=
  match l.down with
  | .early (b :: rest) ack =>
    ⟨l.consumed,l.up,l.channel,l.shut,.early rest ack,l.written ++ [b]⟩
  | .early [] ack => l.setDown (.reading ack [])
  | .writing (b :: rest) => ⟨l.consumed,l.up,l.channel,l.shut,.writing rest,l.written ++ [b]⟩
  | .writing [] => l.setDown (.reading none [])
  | _ => l

end Lane

namespace Tunnel

def setLane (t : Tunnel) (d : Direction) (l : Lane) : Tunnel :=
  ⟨t.peers,Function.update t.lane d l⟩

-- Both loops of a side start once its early data is flushed.
def started (t : Tunnel) (d : Direction) : Bool :=
  match (t.lane d.flip).down with
  | .early _ _ => false
  | _ => true

def step (S : CipherSuite) (t : Tunnel) : TunnelEvent → Tunnel
  | .reads d chunk =>
    if (t.lane d).up = .reading ∧ t.started d ∧ chunk ≠ [] ∧ chunk.length ≤ chunkSize then
      t.setLane d ((t.lane d).read chunk)
    else t
  | .ends d =>
    if (t.lane d).up = .reading ∧ t.started d then
      t.setLane d ((t.lane d).setUp (.sending (encodeFramed Frame.close.encode) true))
    else t
  | .seals d =>
    match (t.lane d).up with
    | .sealing chunk =>
      let ct := ((t.peers.sender d).seal S d chunk).1
      ⟨(t.peers.step S (.seals d chunk)).2,Function.update t.lane d
        ((t.lane d).setUp (.sending (encodeFramed (dataRecord d ct).encode) false))⟩
    | _ => t
  | .pushes d => t.setLane d (t.lane d).push
  | .pulls d => t.setLane d (t.lane d).pull
  | .takes d => t.setLane d (t.lane d).take
  | .opens d =>
    match (t.lane d).down with
    | .opening ct =>
      ⟨(t.peers.step S (.opens d ct)).2,Function.update t.lane d
        ((t.lane d).setDown (onOpen ((t.peers.receiver d).open S d ct).1))⟩
    | _ => t
  | .writes d => t.setLane d (t.lane d).write

def exec (S : CipherSuite) (t : Tunnel) (events : List TunnelEvent) : Tunnel :=
  events.foldl (step S) t

def start (S : CipherSuite) (record : RecordLayer) (earlyData : Bytes) (zeroRtt : Bool) : Tunnel where
  peers := ⟨record,record⟩
  lane
    | .clientToServer => ⟨[],.reading,[],false,.early earlyData none,[]⟩
    | .serverToClient =>
      if zeroRtt then
        ⟨[],.reading,encodeFramed (Frame.serverAck (record.encKeyHash S).val).encode,false,
          .early [] (some (record.encKeyHash S)),[]⟩
      else ⟨[],.reading,[],false,.early [] none,[]⟩

end Tunnel

theorem lane_update {P : Direction → Lane → Prop} {lane : Direction → Lane} {d : Direction}
    {l : Lane} (hl : P d l) (hother : P d.flip (lane d.flip)) (e : Direction) :
    P e (Function.update lane d l e) := by
  rcases Direction.eq_or_flip d e with rfl | rfl
  · simpa using hl
  · simpa [Function.update_of_ne (Direction.flip_ne d)] using hother

end OrtTunnel.Net
