import Esme.Memory.Buffer

/-! The messages of `lepton_rpmsg_datatype.h`, with the frame geometry left open. -/

namespace Esme

/--
The frame geometry: `FRAME_SIZE` and `FRAME_PACKET_DATA_SIZE`.

The number of full packets leaves room for one more in the byte that counts packets.
-/
structure Layout where
  frameSize : Nat
  framePacketDataSize : Nat
  frameSize_pos : 0 < frameSize
  framePacketDataSize_pos : 0 < framePacketDataSize
  fits : frameSize / framePacketDataSize ≤ 254

/-- The geometry the header defines. -/
def lepton : Layout where
  frameSize := 38489
  framePacketDataSize := 493
  frameSize_pos := by decide
  framePacketDataSize_pos := by decide
  fits := by decide

namespace Layout

/-- `TOTAL_FRAME_FULL_PACKETS` -/
def totalFrameFullPackets (layout : Layout) : Nat :=
  layout.frameSize / layout.framePacketDataSize

/-- `LAST_FRAME_PACKET_SIZE` -/
def lastFramePacketSize (layout : Layout) : Nat :=
  layout.frameSize % layout.framePacketDataSize

/-- `TOTAL_FRAME_PACKETS` -/
def totalFramePackets (layout : Layout) : Nat :=
  if layout.lastFramePacketSize = 0 then layout.totalFrameFullPackets
  else layout.totalFrameFullPackets + 1

/-- Full packets and the remainder make up the frame. -/
theorem frameSize_eq (layout : Layout) :
    layout.totalFrameFullPackets * layout.framePacketDataSize + layout.lastFramePacketSize =
      layout.frameSize := by
  rw [totalFrameFullPackets, lastFramePacketSize, Nat.mul_comm]
  exact Nat.div_add_mod _ _

/-- The last packet's share is smaller than a full one. -/
theorem lastFramePacketSize_lt (layout : Layout) :
    layout.lastFramePacketSize < layout.framePacketDataSize :=
  Nat.mod_lt _ layout.framePacketDataSize_pos

end Layout

/-- `PACKET_FRAME` -/
def packetFrame : UInt8 := 0

/-- `PACKET_M33A55_CONFIG_SEND` -/
def packetM33A55ConfigSend : UInt8 := 1

/-- `PACKET_A55M33_CONFIG_SET` -/
def packetA55M33ConfigSet : UInt8 := 2

/-- `PACKET_A55M33_CONFIG_GET` -/
def packetA55M33ConfigGet : UInt8 := 3

/-- `LeptonCameraConfigData`, each field the byte that the packed structure holds for it. -/
structure LeptonCameraConfigData where
  agcEn : UInt8
  agcPolicy : UInt8
  gainMode : UInt8
  gpioMode : UInt8
  videoOutputSource : UInt8
  pixelNoiseFilter : UInt8
  columnNoiseFilter : UInt8
  temporalFilter : UInt8
  deriving DecidableEq

/-- `FramePacket` -/
structure FramePacket (layout : Layout) where
  packetType : UInt8
  packetCounter : UInt8
  frameCounter : UInt8
  data : Buffer UInt8 layout.framePacketDataSize
  deriving DecidableEq

/-- `ConfigPacket` -/
structure ConfigPacket where
  packetType : UInt8
  errorReg : UInt8
  serialNumber : UInt64
  syncCount : UInt16
  config : LeptonCameraConfigData
  deriving DecidableEq

/-- `sizeof(FramePacket)` -/
def FramePacket.size (layout : Layout) : Nat := layout.framePacketDataSize + 3

/-- `sizeof(ConfigPacket)` -/
def ConfigPacket.size : Nat := 20

/-- A packed unsigned field, least significant byte first. -/
def littleEndian : List UInt8 → Nat
  | [] => 0
  | byte :: rest => byte.toNat + 256 * littleEndian rest

/-- `*(LeptonCameraConfigData *)data` -/
def LeptonCameraConfigData.ofBytes (data : List UInt8) : LeptonCameraConfigData where
  agcEn := data.getD 0 0
  agcPolicy := data.getD 1 0
  gainMode := data.getD 2 0
  gpioMode := data.getD 3 0
  videoOutputSource := data.getD 4 0
  pixelNoiseFilter := data.getD 5 0
  columnNoiseFilter := data.getD 6 0
  temporalFilter := data.getD 7 0

/-- `*(ConfigPacket *)data` -/
def ConfigPacket.ofBytes (data : List UInt8) : ConfigPacket where
  packetType := data.getD 0 0
  errorReg := data.getD 1 0
  serialNumber := UInt64.ofNat (littleEndian ((data.drop 2).take 8))
  syncCount := UInt16.ofNat (littleEndian ((data.drop 10).take 2))
  config := LeptonCameraConfigData.ofBytes (data.drop 12)

/-- `*(FramePacket *)data`, for data of its size -/
def FramePacket.ofBytes {layout : Layout} (data : List UInt8)
    (sized : data.length = FramePacket.size layout) : FramePacket layout where
  packetType := data.getD 0 0
  packetCounter := data.getD 1 0
  frameCounter := data.getD 2 0
  data := ⟨data.drop 3, by rw [List.length_drop, sized, FramePacket.size]; rfl⟩

/-- The bytes of a frame packet in the order of its fields. -/
def FramePacket.toBytes {layout : Layout} (packet : FramePacket layout) : List UInt8 :=
  packet.packetType :: packet.packetCounter :: packet.frameCounter :: packet.data.toList

/-- A frame packet occupies its size. -/
@[simp] theorem FramePacket.toBytes_length {layout : Layout} (packet : FramePacket layout) :
    packet.toBytes.length = FramePacket.size layout := by
  simp [toBytes, FramePacket.size, packet.data.length_eq]

/-- A frame packet reads back from its own bytes. -/
@[simp] theorem FramePacket.ofBytes_toBytes {layout : Layout} (packet : FramePacket layout) :
    FramePacket.ofBytes packet.toBytes packet.toBytes_length = packet := rfl

/-- The zeroed packet a static variable starts as. -/
def FramePacket.zero (layout : Layout) : FramePacket layout where
  packetType := 0
  packetCounter := 0
  frameCounter := 0
  data := Buffer.replicate _ 0

/-- The zeroed packet a static variable starts as. -/
def ConfigPacket.zero : ConfigPacket where
  packetType := 0
  errorReg := 0
  serialNumber := 0
  syncCount := 0
  config := ⟨0, 0, 0, 0, 0, 0, 0, 0⟩

end Esme
