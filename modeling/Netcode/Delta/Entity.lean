import Netcode.Delta.Field
import Netcode.Protocol

set_option autoImplicit false

namespace Netcode

abbrev Vec3 := Vector Single 3

def Vec3.zero : Vec3 := Vector.replicate 3 .zero

structure FrameInfo where
  index : Int32 := 0
  time : Single := .zero
  weight : Single := .zero
  deriving DecidableEq, Repr, Inhabited

structure Trajectory where
  trTime : Int32 := 0
  trDelta : Vec3 := Vec3.zero
  deriving DecidableEq, Repr, Inhabited

/-- A networked entity. -/
structure EntityState where
  number : Int32 := 0
  eType : Int32 := 0
  eFlags : Int32 := 0
  pos : Trajectory := {}
  netOrigin : Vec3 := Vec3.zero
  origin2 : Vec3 := Vec3.zero
  netAngles : Vec3 := Vec3.zero
  constantLight : Int32 := 0
  loopSound : Int32 := 0
  loopSoundVolume : Single := .zero
  loopSoundMinDist : Single := .zero
  loopSoundMaxDist : Single := .zero
  loopSoundPitch : Single := .zero
  loopSoundFlags : Int32 := 0
  parent : Int32 := 0
  tagNum : Int32 := 0
  attachUseAngles : Int32 := 0
  attachOffset : Vec3 := Vec3.zero
  beamEntnum : Int32 := 0
  modelIndex : Int32 := 0
  usageIndex : Int32 := 0
  skinNum : Int32 := 0
  wasFrame : Int32 := 0
  frameInfo : Vector FrameInfo 16 := Vector.replicate 16 {}
  actionWeight : Single := .zero
  boneTag : Vector Int32 5 := Vector.replicate 5 0
  boneAngles : Vector Vec3 5 := Vector.replicate 5 Vec3.zero
  clientNum : Int32 := 0
  groundEntityNum : Int32 := 0
  solid : Int32 := 0
  scale : Single := .zero
  alpha : Single := .zero
  renderFx : Int32 := 0
  shaderData : Vector Single 2 := Vector.replicate 2 .zero
  shaderTime : Single := .zero
  deriving DecidableEq, Repr, Inhabited

namespace EntityState

/-- The entity that every field of a default state describes. -/
def blank : EntityState := {}

def frameFields (k : Fin 16) : List (NetField EntityState) :=
  let name := "frame_info[" ++ toString k.val ++ "]."
  let get (s : EntityState) : FrameInfo := s.frameInfo.get k
  let put (s : EntityState) (f : FrameInfo) : EntityState :=
    { s with frameInfo := NetField.setComponent s.frameInfo k f }
  [NetField.int (name ++ "index") 12 (fun s => (get s).index)
      (fun s v => put s { get s with index := v }),
    NetField.float (name ++ "time") .animTime 15 (fun s => (get s).time)
      (fun s v => put s { get s with time := v }),
    NetField.float (name ++ "weight") .animWeight 8 (fun s => (get s).weight)
      (fun s v => put s { get s with weight := v })]

def boneTagField (i : Fin 5) : NetField EntityState :=
  NetField.intComponent "bone_tag" (-8) (·.boneTag) (fun s v => { s with boneTag := v }) i

def boneAngleFields (bits : Int32) (i : Fin 5) : List (NetField EntityState) :=
  NetField.floatComponents ("bone_angles[" ++ toString i.val ++ "]") .angle bits
    (fun s => s.boneAngles.get i)
    (fun s v => { s with boneAngles := NetField.setComponent s.boneAngles i v })

/-- The fields of the entity table in wire order; `expanded` selects the expanded family's
widths and kinds. -/
def fields (expanded : Bool) : List (NetField EntityState) :=
  let entityBits : Int32 := if expanded then 11 else 10
  let angleBits : Int32 := if expanded then 16 else 12
  -- each part written out carries its type: the parts of a chain of appends are elaborated without
  -- one, and inferring them from the chain is slow
  ([NetField.int "pos.tr_time" 32 (fun s => s.pos.trTime)
    (fun s v => { s with pos := { s.pos with trTime := v } })] : List (NetField EntityState)) ++
  (NetField.floatComponents "pos.tr_delta" (if expanded then .velocity else .regular) (if expanded then -17 else 0)
    (fun s => s.pos.trDelta) (fun s v => { s with pos := { s.pos with trDelta := v } })
     : List (NetField EntityState)) ++
  (NetField.floatComponents "net_origin" .coord (if expanded then 18 else 16) (·.netOrigin)
    (fun s v => { s with netOrigin := v }) : List (NetField EntityState)) ++
  (NetField.floatComponents "net_angles" .angle angleBits (·.netAngles)
    (fun s v => { s with netAngles := v }) : List (NetField EntityState)) ++
  (List.finRange 16).flatMap frameFields ++
  ([NetField.float "action_weight" .animWeight 8 (·.actionWeight)
    (fun s v => { s with actionWeight := v })] : List (NetField EntityState)) ++
  (List.finRange 5).map boneTagField ++
  (List.finRange 5).flatMap (boneAngleFields angleBits) ++
  ([NetField.int "constant_light" 32 (·.constantLight) (fun s v => { s with constantLight := v }),
    NetField.int "loop_sound" 16 (·.loopSound) (fun s v => { s with loopSound := v }),
    NetField.float "loop_sound_volume" .regular 0 (·.loopSoundVolume)
      (fun s v => { s with loopSoundVolume := v }),
    NetField.float "loop_sound_min_dist" .regular 0 (·.loopSoundMinDist)
      (fun s v => { s with loopSoundMinDist := v }),
    NetField.float "loop_sound_max_dist" .regular 0 (·.loopSoundMaxDist)
      (fun s v => { s with loopSoundMaxDist := v }),
    NetField.float "loop_sound_pitch" .regular 0 (·.loopSoundPitch)
      (fun s v => { s with loopSoundPitch := v }),
    NetField.int "loop_sound_flags" 8 (·.loopSoundFlags) (fun s v => { s with loopSoundFlags := v }),
    NetField.int "parent" entityBits (·.parent) (fun s v => { s with parent := v }),
    NetField.int "tag_num" 10 (·.tagNum) (fun s v => { s with tagNum := v }),
    NetField.int "attach_use_angles" 1 (·.attachUseAngles)
      (fun s v => { s with attachUseAngles := v })] : List (NetField EntityState)) ++
  (NetField.floatComponents "attach_offset" .regular 0 (·.attachOffset)
    (fun s v => { s with attachOffset := v }) : List (NetField EntityState)) ++
  ([NetField.int "beam_entnum" entityBits (·.beamEntnum) (fun s v => { s with beamEntnum := v }),
    NetField.int "model_index" 16 (·.modelIndex) (fun s v => { s with modelIndex := v }),
    NetField.int "usage_index" 16 (·.usageIndex) (fun s v => { s with usageIndex := v }),
    NetField.int "skin_num" 8 (·.skinNum) (fun s v => { s with skinNum := v }),
    NetField.int "was_frame" 10 (·.wasFrame) (fun s v => { s with wasFrame := v }),
    NetField.int "e_type" 8 (·.eType) (fun s v => { s with eType := v }),
    NetField.int "e_flags" 16 (·.eFlags) (fun s v => { s with eFlags := v }),
    NetField.int "client_num" 8 (·.clientNum) (fun s v => { s with clientNum := v }),
    NetField.int "ground_entity_num" entityBits (·.groundEntityNum)
      (fun s v => { s with groundEntityNum := v }),
    NetField.int "solid" 32 (·.solid) (fun s v => { s with solid := v }),
    NetField.float "scale" .scale 10 (·.scale) (fun s v => { s with scale := v }),
    NetField.float "alpha" .alpha 8 (·.alpha) (fun s v => { s with alpha := v }),
    NetField.int "render_fx" 32 (·.renderFx) (fun s v => { s with renderFx := v })]
       : List (NetField EntityState)) ++
  (NetField.floatComponents "shader_data" .regular 0 (·.shaderData) (fun s v => { s with shaderData := v })
     : List (NetField EntityState)) ++
  ([NetField.float "shader_time" .regular 0 (·.shaderTime) (fun s v => { s with shaderTime := v })]
     : List (NetField EntityState)) ++
  (NetField.floatComponents "origin2" (if expanded then .coord else .regular) (if expanded then 18 else 0)
    (·.origin2) (fun s v => { s with origin2 := v }) : List (NetField EntityState))

def classicTable : FieldTable EntityState := ⟨fields false, true⟩

def expandedTable : FieldTable EntityState := ⟨fields true, true⟩

end EntityState

namespace Protocol

def entityTable (p : Protocol) : FieldTable EntityState :=
  match p.family with
  | .classic => EntityState.classicTable
  | .expanded => EntityState.expandedTable

/-- Writes an entity update: number, removal bit, changed bit and field delta. An unchanged entity
writes nothing unless forced; no `new` removes `old`. -/
def writeDeltaEntity (p : Protocol) (old new : Option EntityState) (force : Bool) :
    Wire Unit := do
  let bits := p.numberBits.toInt32
  match new with
  | none =>
    match old with
    | none => Wire.fail (.invalidData "removal without a source entity")
    | some o =>
      Wire.writeBits o.number.toInt64 bits
      Wire.writeBool true
  | some n =>
    if n.number < 0 ∨ n.number.toInt ≥ p.maxEntities - 1 then
      Wire.fail (.badEntityNumber n.number.toUInt32)
    let base := old.getD {}
    if p.entityTable.lastChanged base n = 0 then
      if force then
        Wire.writeBits n.number.toInt64 bits
        Wire.writeBool false
        Wire.writeBool false
    else
      Wire.writeBits n.number.toInt64 bits
      Wire.writeBool false
      Wire.writeBool true
      let _ ← Wire.writeDeltaFields p.entityTable base n true

/-- Reads an entity update whose number was already read: `none` for a removal. -/
def readDeltaEntity (p : Protocol) (old : Option EntityState) (number : UInt32) :
    Wire (Option EntityState) := do
  if ← Wire.readBool then return none
  let state ← if ← Wire.readBool then Wire.readDeltaFields p.entityTable (old.getD {})
    else pure (old.getD {})
  return some { state with number := number.toInt32 }

end Protocol

end Netcode
