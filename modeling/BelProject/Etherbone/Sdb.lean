import BelProject.Library.HostOrder
import BelProject.Etherbone.Requests

/-! The self-describing bus of a socket. `eb_sdb` makes up one word of the table at a time
from the list of attached handlers; read in words of any width the table is one fixed
string of bytes, a header and one block of 64 bytes for each handler. -/

namespace BelProject.Etherbone.Sdb
open BelProject.Library Width Execute Operations

structure SdbProduct where
  vendorId : UInt64
  deviceId : UInt32
  version : UInt32
  date : UInt32
  name : Fin 19 → UInt8
  recordType : UInt8

structure SdbComponent where
  addrFirst : UInt64
  addrLast : UInt64
  product : SdbProduct

structure SdbInterconnect where
  sdbMagic : UInt32
  sdbRecords : UInt16
  sdbVersion : UInt8
  sdbBusType : UInt8
  sdbComponent : SdbComponent

structure SdbDevice where
  abiClass : UInt16
  abiVerMajor : UInt8
  abiVerMinor : UInt8
  busSpecific : UInt32
  sdbComponent : SdbComponent

structure SdbBridge where
  sdbChild : UInt64
  sdbComponent : SdbComponent

abbrev sdbRecordInterconnect : UInt8 := 0x00
abbrev sdbRecordDevice : UInt8 := 0x01
abbrev sdbRecordBridge : UInt8 := 0x02
abbrev sdbRecordIntegration : UInt8 := 0x80

abbrev sdbMagic : UInt32 := 0x5344422D

def field (host : Host) (width value : Nat) : List UInt8 := host.store width (host.swap width value)

def fieldAt (host : Host) (bytes : List UInt8) (offset width : Nat) : Nat :=
  host.swap width (host.load ((bytes.drop offset).take width))

theorem field_eq (host : Host) (width value : Nat) : field host width value = BigEndian.encode width value :=
  host.store_swap width value

@[simp] theorem length_field (host : Host) (width value : Nat) : (field host width value).length = width := by
  rw [field_eq, BigEndian.length_encode]

theorem fieldAt_field (host : Host) (before after : List UInt8) {width value : Nat} (fits : value < 256 ^ width) :
    fieldAt host (before ++ (field host width value ++ after)) before.length width = value := by
  have found : ((before ++ (field host width value ++ after)).drop before.length).take width =
    field host width value := by
    rw [List.drop_left, List.take_left' (length_field host width value)]
  have loaded := host.swap_load (field host width value)
  rw [length_field] at loaded
  rw [fieldAt, found, loaded, field_eq, BigEndian.decode_encode_of_lt fits]

def SdbProduct.image (host : Host) (product : SdbProduct) : List UInt8 :=
  field host 8 product.vendorId.toNat ++ (field host 4 product.deviceId.toNat ++ (field host 4 product.version.toNat ++
    (field host 4 product.date.toNat ++ (List.ofFn product.name ++ [product.recordType]))))

def SdbComponent.image (host : Host) (component : SdbComponent) : List UInt8 :=
  field host 8 component.addrFirst.toNat ++ (field host 8 component.addrLast.toNat ++ component.product.image host)

def SdbInterconnect.image (host : Host) (interconnect : SdbInterconnect) : List UInt8 :=
  field host 4 interconnect.sdbMagic.toNat ++ (field host 2 interconnect.sdbRecords.toNat ++
    (interconnect.sdbVersion :: interconnect.sdbBusType :: interconnect.sdbComponent.image host))

def SdbDevice.image (host : Host) (device : SdbDevice) : List UInt8 :=
  field host 2 device.abiClass.toNat ++ (device.abiVerMajor :: device.abiVerMinor ::
    (field host 4 device.busSpecific.toNat ++ device.sdbComponent.image host))

@[simp] theorem SdbProduct.length_image (host : Host) (product : SdbProduct) : (product.image host).length = 40 := by
  simp [SdbProduct.image]

@[simp] theorem SdbComponent.length_image (host : Host) (component : SdbComponent) :
    (component.image host).length = 56 := by
  simp [SdbComponent.image]

@[simp] theorem SdbInterconnect.length_image (host : Host) (interconnect : SdbInterconnect) :
    (interconnect.image host).length = 64 := by
  simp [SdbInterconnect.image]

@[simp] theorem SdbDevice.length_image (host : Host) (device : SdbDevice) : (device.image host).length = 64 := by
  simp [SdbDevice.image]

/-- `eb_sdb_extract`: bytes of a structure as one word, first byte on top. -/
def ebSdbExtract (data : List UInt8) (width : UInt8) (addr : Nat) : Nat :=
  BigEndian.decode ((data.drop addr).take (width &&& ebDataX).toNat)

/-- What the build fixes: byte order, the width of `eb_address_t` and the release. -/
structure Build where
  host : Host
  address : Nat
  version : UInt32
  date : UInt32

/-- `Software-EB-Bus`, padded with blanks to the 19 bytes of the field. -/
def busName : List UInt8 := [83, 111, 102, 116, 119, 97, 114, 101, 45, 69, 66, 45, 66, 117, 115, 32, 32, 32, 32]

/-- `~(eb_address_t)0` as a field of 64 bits; an address of 16 bits is promoted to an int before. -/
def addressEnd (build : Build) : UInt64 :=
  if build.address = 2 then UInt64.ofNat (2 ^ 64 - 1) else UInt64.ofNat (2 ^ (8 * build.address) - 1)

/-- The header `eb_sdb_interconnect` fills in. -/
def interconnect (build : Build) (devices : Nat) : SdbInterconnect :=
  { sdbMagic := sdbMagic
    sdbRecords := UInt16.ofNat (devices + 1)
    sdbVersion := 1
    sdbBusType := 0
    sdbComponent :=
      { addrFirst := 0
        addrLast := addressEnd build
        product :=
          { vendorId := 0x651
            deviceId := 0x02398114
            version := build.version
            date := build.date
            name := fun i => busName.getD i 0
            recordType := sdbRecordInterconnect } } }

def ebSdbInterconnect (build : Build) (width : UInt8) (addr devices : Nat) : Nat :=
  ebSdbExtract ((interconnect build devices).image build.host) width addr

/-- The copy `eb_sdb_device` makes of a descriptor: all of it but the record type. -/
def SdbDevice.forced (device : SdbDevice) : SdbDevice :=
  { device with sdbComponent := { device.sdbComponent with
      product := { device.sdbComponent.product with recordType := sdbRecordDevice } } }

def ebSdbDevice (build : Build) (device : SdbDevice) (width : UInt8) (addr : Nat) : Nat :=
  ebSdbExtract (device.forced.image build.host) width addr

/-- The walk along the handlers that `--dev == 0` stops. -/
def findDevice : Nat → List SdbDevice → Option SdbDevice
  | _, [] => none
  | dev, device :: next => if dev - 1 = 0 then some device else findDevice (dev - 1) next

def ebSdb (build : Build) (handlers : List SdbDevice) (width : UInt8) (addr : Nat) : Nat :=
  if addr < 0x40 then ebSdbInterconnect build width addr handlers.length
  else
    match findDevice (addr >>> 6) handlers with
    | none => 0
    | some device => ebSdbDevice build device width (addr &&& 0x3f)

theorem findDevice_eq (dev : Nat) (handlers : List SdbDevice) : findDevice (dev + 1) handlers = handlers[dev]? := by
  induction handlers generalizing dev with
  | nil => rfl
  | cons device next ih =>
    cases dev with
    | zero => rfl
    | succ dev =>
      rw [findDevice, if_neg (by omega)]
      exact ih dev

def blocks (build : Build) (handlers : List SdbDevice) : List (List UInt8) :=
  (interconnect build handlers.length).image build.host :: handlers.map fun device => device.forced.image build.host

def table (build : Build) (handlers : List SdbDevice) : List UInt8 := (blocks build handlers).flatten

theorem length_flatten_blocks {blocks : List (List UInt8)} {size : Nat} (even : ∀ block ∈ blocks, block.length = size) :
    blocks.flatten.length = size * blocks.length := by
  induction blocks with
  | nil => rfl
  | cons block blocks ih =>
    rw [List.flatten_cons, List.length_append, even block List.mem_cons_self,
      ih fun other member => even other (List.mem_cons_of_mem _ member), List.length_cons]
    ring

theorem window_flatten {blocks : List (List UInt8)} {size : Nat} (even : ∀ block ∈ blocks, block.length = size)
    {index : Nat} {block : List UInt8} (found : blocks[index]? = some block) (offset width : Nat)
    (inside : offset + width ≤ size) :
    (blocks.flatten.drop (size * index + offset)).take width = (block.drop offset).take width := by
  induction blocks generalizing index with
  | nil => simp at found
  | cons first blocks ih =>
    have length := even first List.mem_cons_self
    cases index with
    | zero =>
      obtain rfl : first = block := by simpa using found
      rw [Nat.mul_zero, Nat.zero_add, List.flatten_cons, List.drop_append_of_le_length (by omega),
        List.take_append_of_le_length (by rw [List.length_drop]; omega)]
    | succ index =>
      have skip : size * (index + 1) + offset = first.length + (size * index + offset) := by
        rw [length]
        ring
      rw [skip, List.flatten_cons, List.drop_append, List.drop_eq_nil_of_le (by omega), List.nil_append,
        Nat.add_sub_cancel_left]
      exact ih (fun other member => even other (List.mem_cons_of_mem _ member)) (by simpa using found)

theorem blocks_even (build : Build) (handlers : List SdbDevice) :
    ∀ block ∈ blocks build handlers, block.length = 64 := by
  intro block member
  rcases List.mem_cons.mp member with rfl | member
  · exact SdbInterconnect.length_image _ _
  · obtain ⟨device, _, rfl⟩ := List.mem_map.mp member
    exact SdbDevice.length_image _ _

theorem length_table (build : Build) (handlers : List SdbDevice) :
    (table build handlers).length = 64 * (handlers.length + 1) := by
  rw [table, length_flatten_blocks (blocks_even build handlers), blocks, List.length_cons, List.length_map]

theorem ebSdb_word (build : Build) (handlers : List SdbDevice) (width : UInt8) (addr : Nat)
    (isSize : IsSize (width &&& ebDataX).toNat) (aligned : (width &&& ebDataX).toNat ∣ addr)
    (inside : addr < 64 * (handlers.length + 1)) :
    ebSdb build handlers width addr =
      BigEndian.decode (((table build handlers).drop addr).take (width &&& ebDataX).toNat) := by
  have room : addr % 64 + (width &&& ebDataX).toNat ≤ 64 := by
    obtain ⟨k, rfl⟩ := aligned
    rcases isSize with h | h | h | h <;> rw [h] <;> omega
  have place : addr = 64 * (addr / 64) + addr % 64 := (Nat.div_add_mod addr 64).symm
  have low : addr &&& 0x3f = addr % 64 := Nat.and_two_pow_sub_one_eq_mod addr 6
  have window : ∀ block, (blocks build handlers)[addr / 64]? = some block →
      ((table build handlers).drop addr).take (width &&& ebDataX).toNat =
        (block.drop (addr % 64)).take (width &&& ebDataX).toNat := by
    intro block found
    have := window_flatten (blocks_even build handlers) found (addr % 64) (width &&& ebDataX).toNat room
    rwa [← place] at this
  unfold ebSdb
  by_cases header : addr < 0x40
  · have first : addr / 64 = 0 := by omega
    have same : addr % 64 = addr := by omega
    rw [if_pos header, window ((interconnect build handlers.length).image build.host) (by rw [first]; rfl), same]
    rfl
  · obtain ⟨dev, index⟩ : ∃ dev, addr / 64 = dev + 1 := ⟨addr / 64 - 1, by omega⟩
    have short : dev < handlers.length := by omega
    have shifted : addr >>> 6 = dev + 1 := by rw [Nat.shiftRight_eq_div_pow, ← index]
    have found : handlers[dev]? = some handlers[dev] := List.getElem?_eq_getElem short
    rw [if_neg header, shifted, findDevice_eq, found, low,
      window (handlers[dev].forced.image build.host)
        (by rw [index, blocks, List.getElem?_cons_succ, List.getElem?_map, found]; rfl)]
    rfl

end BelProject.Etherbone.Sdb
