import Netcode.Delta.Entity

set_option autoImplicit false

namespace Netcode

/-- The local player's simulated state. -/
structure PlayerState where
  commandTime : Int32 := 0
  pmType : Int32 := 0
  bobCycle : Int32 := 0
  pmFlags : Int32 := 0
  pmRuntime : Int32 := 0
  origin : Vec3 := Vec3.zero
  velocity : Vec3 := Vec3.zero
  gravity : Int32 := 0
  speed : Int32 := 0
  deltaAngles : Vector Int32 3 := Vector.replicate 3 0
  groundEntityNum : Int32 := 0
  walking : Int32 := 0
  groundPlane : Int32 := 0
  feetFalling : Int32 := 0
  fallDir : Vec3 := Vec3.zero
  clientNum : Int32 := 0
  viewAngles : Vec3 := Vec3.zero
  viewHeight : Int32 := 0
  leanAngle : Single := .zero
  viewModelAnim : Int32 := 0
  viewModelAnimChanged : Int32 := 0
  stats : Vector Int32 32 := Vector.replicate 32 0
  activeItems : Vector Int32 8 := Vector.replicate 8 0
  ammoNameIndex : Vector Int32 16 := Vector.replicate 16 0
  ammoAmount : Vector Int32 16 := Vector.replicate 16 0
  maxAmmoAmount : Vector Int32 16 := Vector.replicate 16 0
  currentMusicMood : Int32 := 0
  fallbackMusicMood : Int32 := 0
  musicVolume : Single := .zero
  musicVolumeFadeTime : Single := .zero
  reverbType : Int32 := 0
  reverbLevel : Single := .zero
  blend : Vector Single 4 := Vector.replicate 4 .zero
  fov : Single := .zero
  cameraOrigin : Vec3 := Vec3.zero
  cameraAngles : Vec3 := Vec3.zero
  cameraTime : Single := .zero
  cameraOffset : Vec3 := Vec3.zero
  cameraPosofs : Vec3 := Vec3.zero
  cameraFlags : Int32 := 0
  damageAngles : Vec3 := Vec3.zero
  radarInfo : Int32 := 0
  voted : Int32 := 0
  deriving DecidableEq, Repr, Inhabited

namespace PlayerState

def deltaAngleFields : List (NetField PlayerState) :=
  (List.finRange 3).map
    (NetField.intComponent "delta_angles" 16 (·.deltaAngles) fun s v => { s with deltaAngles := v })

def regular (name : String) (get : PlayerState → Single) (set : PlayerState → Single → PlayerState) :
    NetField PlayerState :=
  NetField.float name .regular 0 get set

/-- The fields of the player table in wire order; `expanded` selects the expanded family's
forms of the origin, the velocity and the ground entity, and its two extra fields. -/
def fields (expanded : Bool) : List (NetField PlayerState) :=
  -- each part written out carries its type: the parts of a chain of appends are elaborated without
  -- one, and inferring them from the chain is slow
  ([NetField.int "command_time" 32 (·.commandTime) (fun s v => { s with commandTime := v })]
     : List (NetField PlayerState)) ++
  (NetField.floatComponents "origin" (if expanded then .coord else .regular) (if expanded then 18 else 0)
    (·.origin) (fun s v => { s with origin := v }) : List (NetField PlayerState)) ++
  (NetField.floatComponents "velocity" (if expanded then .velocity else .regular)
    (if expanded then -17 else 0) (·.velocity) (fun s v => { s with velocity := v })
     : List (NetField PlayerState)) ++
  (NetField.floatComponents "view_angles" .regular 0 (·.viewAngles) (fun s v => { s with viewAngles := v })
     : List (NetField PlayerState)) ++
  ([NetField.int "bob_cycle" 8 (·.bobCycle) (fun s v => { s with bobCycle := v }),
    NetField.int "pm_flags" 16 (·.pmFlags) (fun s v => { s with pmFlags := v }),
    NetField.int "pm_runtime" 16 (·.pmRuntime) (fun s v => { s with pmRuntime := v })]
       : List (NetField PlayerState)) ++
  deltaAngleFields ++
  ([NetField.int "ground_entity_num" (if expanded then 11 else 10) (·.groundEntityNum)
      (fun s v => { s with groundEntityNum := v }),
    NetField.int "walking" 1 (·.walking) (fun s v => { s with walking := v }),
    NetField.int "ground_plane" 1 (·.groundPlane) (fun s v => { s with groundPlane := v }),
    NetField.int "feet_falling" 8 (·.feetFalling) (fun s v => { s with feetFalling := v })]
       : List (NetField PlayerState)) ++
  (NetField.floatComponents "fall_dir" .regular 0 (·.fallDir) (fun s v => { s with fallDir := v })
     : List (NetField PlayerState)) ++
  ([NetField.int "client_num" 8 (·.clientNum) (fun s v => { s with clientNum := v }),
    NetField.int "view_height" (-8) (·.viewHeight) (fun s v => { s with viewHeight := v }),
    regular "lean_angle" (·.leanAngle) (fun s v => { s with leanAngle := v }),
    NetField.int "view_model_anim" 8 (·.viewModelAnim) (fun s v => { s with viewModelAnim := v }),
    NetField.int "view_model_anim_changed" 2 (·.viewModelAnimChanged)
      (fun s v => { s with viewModelAnimChanged := v }),
    NetField.int "gravity" 16 (·.gravity) (fun s v => { s with gravity := v }),
    NetField.int "speed" 16 (·.speed) (fun s v => { s with speed := v }),
    NetField.int "pm_type" 8 (·.pmType) (fun s v => { s with pmType := v }),
    NetField.int "current_music_mood" 8 (·.currentMusicMood)
      (fun s v => { s with currentMusicMood := v }),
    NetField.int "fallback_music_mood" 8 (·.fallbackMusicMood)
      (fun s v => { s with fallbackMusicMood := v }),
    regular "music_volume" (·.musicVolume) (fun s v => { s with musicVolume := v }),
    regular "music_volume_fade_time" (·.musicVolumeFadeTime)
      (fun s v => { s with musicVolumeFadeTime := v }),
    NetField.int "reverb_type" 6 (·.reverbType) (fun s v => { s with reverbType := v }),
    regular "reverb_level" (·.reverbLevel) (fun s v => { s with reverbLevel := v })]
       : List (NetField PlayerState)) ++
  (NetField.floatComponents "blend" .regular 0 (·.blend) (fun s v => { s with blend := v })
     : List (NetField PlayerState)) ++
  ([regular "fov" (·.fov) (fun s v => { s with fov := v })] : List (NetField PlayerState)) ++
  (NetField.floatComponents "camera_origin" .regular 0 (·.cameraOrigin)
    (fun s v => { s with cameraOrigin := v }) : List (NetField PlayerState)) ++
  (NetField.floatComponents "camera_angles" .regular 0 (·.cameraAngles)
    (fun s v => { s with cameraAngles := v }) : List (NetField PlayerState)) ++
  ([regular "camera_time" (·.cameraTime) (fun s v => { s with cameraTime := v })]
     : List (NetField PlayerState)) ++
  (NetField.floatComponents "camera_offset" .regular 0 (·.cameraOffset)
    (fun s v => { s with cameraOffset := v }) : List (NetField PlayerState)) ++
  (NetField.floatComponents "camera_posofs" .regular 0 (·.cameraPosofs)
    (fun s v => { s with cameraPosofs := v }) : List (NetField PlayerState)) ++
  ([NetField.int "camera_flags" 16 (·.cameraFlags) (fun s v => { s with cameraFlags := v })]
     : List (NetField PlayerState)) ++
  (NetField.floatComponents "damage_angles" .regular 0 (·.damageAngles)
    (fun s v => { s with damageAngles := v }) : List (NetField PlayerState)) ++
  (if expanded then
    [NetField.int "radar_info" 26 (·.radarInfo) (fun s v => { s with radarInfo := v }),
      NetField.int "voted" 1 (·.voted) (fun s v => { s with voted := v })]
  else [] : List (NetField PlayerState))

def classicTable : FieldTable PlayerState := ⟨fields false, false⟩

def expandedTable : FieldTable PlayerState := ⟨fields true, false⟩

/-- A counter array of the player state: its name, its length, and how to read and replace
it. -/
structure Counters where
  name : String
  size : Nat
  get : PlayerState → List Int32
  set : PlayerState → List Int32 → PlayerState

def refill {n : Nat} (v : Vector Int32 n) (xs : List Int32) : Vector Int32 n :=
  Vector.ofFn fun i => xs.getD i.val (v.get i)

def counters : List Counters :=
  [⟨"stats", 32, (·.stats.toList), fun s xs => { s with stats := refill s.stats xs }⟩,
    ⟨"active_items", 8, (·.activeItems.toList),
      fun s xs => { s with activeItems := refill s.activeItems xs }⟩,
    ⟨"ammo_name_index", 16, (·.ammoNameIndex.toList),
      fun s xs => { s with ammoNameIndex := refill s.ammoNameIndex xs }⟩,
    ⟨"ammo_amount", 16, (·.ammoAmount.toList),
      fun s xs => { s with ammoAmount := refill s.ammoAmount xs }⟩,
    ⟨"max_ammo_amount", 16, (·.maxAmmoAmount.toList),
      fun s xs => { s with maxAmmoAmount := refill s.maxAmmoAmount xs }⟩]

def changedMask (old new : List Int32) : UInt32 :=
  ((old.zip new).zipIdx.filter fun ((a, b), _) => a ≠ b).foldl
    (fun mask (_, i) => mask ||| ((1 : UInt32) <<< i.toUInt32)) 0

end PlayerState

namespace Protocol

def playerTable (p : Protocol) : FieldTable PlayerState :=
  match p.family with
  | .classic => PlayerState.classicTable
  | .expanded => PlayerState.expandedTable

def writeCounterValues (mask : UInt32) : List (Int32 × Nat) → Wire Unit
  | [] => pure ()
  | (v, i) :: rest => do
    if mask &&& ((1 : UInt32) <<< i.toUInt32) ≠ 0 then Wire.writeBits v.toInt64 (-16)
    writeCounterValues mask rest

/-- Writes the counter arrays: one bit for whether any changed, then per array a bit and, for a
changed array, its mask and changed elements. -/
def writeCounters (base new : PlayerState) : Wire Unit := do
  let masks := PlayerState.counters.map fun c => (c, PlayerState.changedMask (c.get base) (c.get new))
  if masks.all (·.2 = 0) then Wire.writeBool false
  else
    Wire.writeBool true
    for (c, mask) in masks do
      if mask = 0 then Wire.writeBool false
      else
        Wire.writeBool true
        Wire.writeBits mask.toUInt64.toInt64 c.size.toInt32
        writeCounterValues mask (c.get new).zipIdx

def readCounterValues (mask : UInt32) : List (Int32 × Nat) → Wire (List Int32)
  | [] => pure []
  | (v, i) :: rest => do
    let v ← if mask &&& ((1 : UInt32) <<< i.toUInt32) ≠ 0 then
        (do let r ← Wire.readBits (-16); pure r.toInt32)
      else pure v
    let rest ← readCounterValues mask rest
    return v :: rest

def readCounters (s : PlayerState) : List PlayerState.Counters → Wire PlayerState
  | [] => pure s
  | c :: rest => do
    if ← Wire.readBool then
      let mask ← Wire.readBits c.size.toInt32
      let values ← readCounterValues mask.toUInt64.toUInt32 (c.get s).zipIdx
      readCounters (c.set s values) rest
    else readCounters s rest

/-- Writes a player delta from `old`, or the default state: the field delta, always written,
then the counter arrays. -/
def writeDeltaPlayer (p : Protocol) (old : Option PlayerState) (new : PlayerState) :
    Wire Unit := do
  let base := old.getD {}
  let _ ← Wire.writeDeltaFields p.playerTable base new true
  writeCounters base new

def readDeltaPlayer (p : Protocol) (old : Option PlayerState) : Wire PlayerState := do
  let s ← Wire.readDeltaFields p.playerTable (old.getD {})
  if ← Wire.readBool then readCounters s PlayerState.counters else pure s

end Protocol

/-- A teammate on the compass, relative to the local player: a client, a signed offset and a
heading in 32nds of a turn. -/
structure RadarBlip where
  clientNum : UInt8
  x : Int8
  y : Int8
  yaw : UInt8
  deriving DecidableEq, Repr

namespace RadarBlip

def yawDegrees (b : RadarBlip) : Single :=
  ((Single.ofUInt32 b.yaw.toUInt32).mul (Single.ofNat 360)).div (Single.ofNat 32)

def validFlag : Int32 := (1 : Int32) <<< 25

def signExtend (v : Int32) (bits : Int32) : Int32 :=
  (v <<< (32 - bits)) >>> (32 - bits)

/-- Unpacks a blip: 6 bits of client, 7 signed bits of each offset and 5 bits of heading, if
the valid flag is set. -/
def unpack (info : Int32) : Option RadarBlip :=
  if info &&& validFlag = 0 then none
  else
    let client := info &&& 0x3F
    let x := signExtend ((info >>> 6) &&& 0x7F) 7
    let y := signExtend ((info >>> 13) &&& 0x7F) 7
    let yaw := (info >>> 20) &&& 0x1F
    some ⟨client.toNatClampNeg.toUInt8, x.toInt8, y.toInt8, yaw.toNatClampNeg.toUInt8⟩

def pack (b : RadarBlip) : Option Int32 :=
  if b.clientNum ≥ 64 ∨ b.x < -64 ∨ b.x > 63 ∨ b.y < -64 ∨ b.y > 63 ∨ b.yaw ≥ 32 then none
  else
    some (b.clientNum.toUInt32.toInt32 ||| ((b.x.toInt32 &&& 0x7F) <<< 6) |||
      ((b.y.toInt32 &&& 0x7F) <<< 13) ||| (b.yaw.toUInt32.toInt32 <<< 20) ||| validFlag)

end RadarBlip

namespace Protocol

def readRadar (p : Protocol) (info : Int32) : Option RadarBlip :=
  match p.family with
  | .classic => none
  | .expanded => RadarBlip.unpack info

def writeRadar (p : Protocol) (b : RadarBlip) : Option Int32 :=
  match p.family with
  | .classic => none
  | .expanded => b.pack

end Protocol

end Netcode
