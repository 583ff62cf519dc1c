import BelProject.Library.Bits

/-! `TimestampEncoder` and `TimestampDecoder` with the `crc8_data8` in each. The counters with
their ranges are natural numbers. The encoder's `error_o` is never raised and is left out, and so
are the decoder's `phaseadjust_s` and `phasecheck_counter_s`, which nothing reads but themselves. -/

namespace BelProject.Butis.Timestamp
open Library.Bits (setBit)

def crcC (data crcI : BitVec 8) : BitVec 8 :=
  let d := data.getLsbD
  let c := crcI.getLsbD
  BitVec.ofBool (d 5 ^^ d 6 ^^ d 7 ^^ c 7 ^^ c 6 ^^ c 5) ++ BitVec.ofBool (d 4 ^^ d 5 ^^ d 6 ^^ c 6 ^^ c 5 ^^ c 4) ++
    BitVec.ofBool (d 3 ^^ d 4 ^^ d 5 ^^ c 5 ^^ c 4 ^^ c 3) ++ BitVec.ofBool (d 2 ^^ d 3 ^^ d 4 ^^ c 4 ^^ c 3 ^^ c 2) ++
    BitVec.ofBool (d 1 ^^ d 2 ^^ d 3 ^^ c 3 ^^ c 2 ^^ d 7 ^^ c 1 ^^ c 7) ++
    BitVec.ofBool (d 0 ^^ d 1 ^^ d 2 ^^ c 2 ^^ c 1 ^^ d 6 ^^ c 0 ^^ c 6) ++
    BitVec.ofBool (d 0 ^^ d 1 ^^ c 1 ^^ d 6 ^^ c 0 ^^ c 6) ++ BitVec.ofBool (d 0 ^^ d 6 ^^ d 7 ^^ c 0 ^^ c 7 ^^ c 6)

structure Crc8 where
  soc : Bool
  data : BitVec 8
  dataValid : Bool
  crcR : BitVec 8

def Crc8.next (c : Crc8) : BitVec 8 := if c.dataValid then crcC c.data (if c.soc then 0 else c.crcR) else c.crcR

/-- `encoder_mode_type`. -/
inductive EncoderMode where
  | startByte | par2Ser | nextTimestamp
  deriving DecidableEq, Repr

structure Inputs where
  reset : Bool
  butisT0 : Bool
  timestampOnNextT0 : BitVec 64

structure Encoder where
  mode : EncoderMode
  crc : Crc8
  butisT0 : Bool
  serial : Bool
  clockcounter : Nat
  bitcounter : Nat
  bytecounter : Nat
  tsbytecounter : Nat
  butisT0Counter : Nat

def byteOf (timestamp : BitVec 64) (k : Nat) : BitVec 8 := timestamp.extractLsb' (64 - k * 8 - 8) 8

/-- `timestamp_process`: the bytes go to the check. -/
def Encoder.crcNext (e : Encoder) (i : Inputs) : Crc8 :=
  { soc := !i.reset && !i.butisT0 && e.tsbytecounter == 0
    data :=
      if i.reset || i.butisT0 then e.crc.data
      else if e.tsbytecounter < 8 then byteOf i.timestampOnNextT0 e.tsbytecounter
      else 0
    dataValid := !i.reset && !i.butisT0 && decide (e.tsbytecounter < 8)
    crcR := if i.reset then 0 else e.crc.next }

/-- The bit that `PAR2SER` gives out. -/
def Encoder.serialBit (e : Encoder) (i : Inputs) : Bool :=
  if e.bytecounter < 8 then i.timestampOnNextT0.getLsbD (63 - 8 * e.bytecounter - e.bitcounter)
  else e.crc.crcR.getLsbD (7 - e.bitcounter)

/-- `BuTis_process`. -/
def Encoder.serialize (g : Nat) (e : Encoder) (i : Inputs) : Encoder :=
  if i.butisT0 && !e.butisT0 then
    { e with mode := .startByte, clockcounter := 1, bitcounter := 0, bytecounter := 0, serial := true }
  else
    match e.mode with
    | .startByte =>
      { e with
        serial := if e.clockcounter = 0 then !e.serial else e.serial
        clockcounter := if e.clockcounter < g - 1 then e.clockcounter + 1 else 0
        bitcounter := if e.clockcounter < g - 1 then e.bitcounter else if e.bitcounter < 7 then e.bitcounter + 1 else 0
        mode := if e.clockcounter < g - 1 ∨ e.bitcounter < 7 then .startByte else .par2Ser
        bytecounter := 0 }
    | .par2Ser =>
      { e with
        serial := if e.clockcounter = 0 then e.serialBit i else e.serial
        clockcounter := if e.clockcounter < g - 1 then e.clockcounter + 1 else 0
        bitcounter := if e.clockcounter < g - 1 then e.bitcounter else if e.bitcounter < 7 then e.bitcounter + 1 else 0
        mode := if e.clockcounter < g - 1 ∨ e.bitcounter < 7 ∨ e.bytecounter < 8 then .par2Ser else .nextTimestamp
        bytecounter :=
          if e.clockcounter < g - 1 ∨ e.bitcounter < 7 then e.bytecounter
          else if e.bytecounter < 8 then e.bytecounter + 1 else 0 }
    | .nextTimestamp => { e with serial := false }

def Encoder.clock (g : Nat) (e : Encoder) (i : Inputs) : Encoder :=
  let counted : Encoder :=
    { e with
      crc := e.crcNext i
      butisT0Counter :=
        if i.reset then e.butisT0Counter
        else if i.butisT0 then 0
        else if e.butisT0Counter ≤ 1999 then e.butisT0Counter + 1 else e.butisT0Counter
      tsbytecounter :=
        if i.reset then e.tsbytecounter
        else if i.butisT0 then 0
        else if e.tsbytecounter < 8 then e.tsbytecounter + 1 else e.tsbytecounter }
  if i.reset then { counted with butisT0 := false, mode := .nextTimestamp, serial := false }
  else
    let serialized := e.serialize g i
    { counted with
      butisT0 := i.butisT0, mode := serialized.mode, serial := serialized.serial, clockcounter :=
        serialized.clockcounter
      bitcounter := serialized.bitcounter, bytecounter := serialized.bytecounter }

def Encoder.powerUp : Encoder := ⟨.nextTimestamp, ⟨false, 0, false, 0⟩, false, false, 0, 0, 0, 0, 0⟩

/-- `decoder_mode_type`. -/
inductive DecoderMode where
  | waitForSignal | ser2Par | crcResult | waitForZeros
  deriving DecidableEq, Repr

structure Decoder where
  mode : DecoderMode
  serial1 : Bool
  serial2 : Bool
  error : Bool
  errorNosignal : Bool
  errorCounter : Nat
  periodError : Bool
  crc : Crc8
  timestamp : BitVec 64
  timestampRec : BitVec 64
  clockcounter : Nat
  bitcounter : Nat
  bytecounter : Nat
  ratiocounter : Nat
  zeroscounter : Nat
  butisT0Counter : Nat
  butisT0 : Bool

def Decoder.detects (d : Decoder) : Bool := d.mode == .waitForSignal && d.serial1 && !d.serial2

def Decoder.errorOut (d : Decoder) : Bool := d.error || d.errorNosignal || d.periodError

def Decoder.uncertain (d : Decoder) : Bool := d.errorCounter == 3 || d.periodError || d.errorNosignal

/-- `butis_T0_process`. -/
def Decoder.count (d : Decoder) (reset : Bool) : Decoder :=
  let d := { d with butisT0 := false }
  if reset then { d with errorCounter := 3 }
  else if d.detects then
    if !d.error then { d with timestamp := d.timestampRec + 10, butisT0Counter := 0, errorCounter := 0 }
    else { d with timestamp := d.timestamp + 5, errorCounter := if d.errorCounter <
      3 then d.errorCounter + 1 else d.errorCounter }
  else
    { d with
      timestamp := d.timestamp + 5
      butisT0 := d.butisT0Counter == 1997
      butisT0Counter := if d.butisT0Counter = 1999 then 0 else d.butisT0Counter + 1 }

def Decoder.endsByte (g : Nat) (d : Decoder) : Bool :=
  d.mode == .ser2Par && !decide (d.clockcounter < g - 1) && !decide (d.bitcounter < 7)

/-- The clock that samples a bit, in the middle of its clocks. -/
def Decoder.samples (g : Nat) (d : Decoder) : Bool :=
  d.mode == .ser2Par && decide (d.clockcounter < g - 1) && decide (d.clockcounter + 1 = g / 2)

/-- The check of the decoder gets the bytes after the start byte. -/
def Decoder.crcNext (g : Nat) (d : Decoder) (reset : Bool) : Crc8 :=
  { soc := !reset && d.endsByte g && d.bytecounter == 1
    data := if !reset && d.samples g then setBit d.crc.data (7 - d.bitcounter) d.serial1 else d.crc.data
    dataValid := !reset && d.endsByte g && d.bytecounter != 0 && d.bytecounter != 9
    crcR := if reset then 0 else d.crc.next }

def Decoder.ratioNext (precision : Nat) (d : Decoder) : Nat × Bool :=
  if d.detects then (0, d.errorNosignal)
  else if d.ratiocounter < 2000 + precision then (d.ratiocounter + 1, false)
  else (d.ratiocounter, true)

def Decoder.modeNext (g : Nat) (d : Decoder) : DecoderMode :=
  match d.mode with
  | .waitForSignal => if d.serial1 && !d.serial2 then .ser2Par else .waitForSignal
  | .ser2Par => if d.endsByte g && !decide (d.bytecounter < 9) then .crcResult else .ser2Par
  | .crcResult => .waitForZeros
  | .waitForZeros => if !d.serial1 && !decide (d.zeroscounter < 500) then .waitForSignal else .waitForZeros

def Decoder.periodNext (precision : Nat) (d : Decoder) : Bool :=
  match d.mode with
  | .waitForSignal =>
    if d.serial1 then (if !d.serial2 then decide (d.ratiocounter < 2000 - precision) else true) else d.periodError
  | _ => d.periodError

/-- `BuTis_process`: the counters of the conversion. -/
def Decoder.convert (g : Nat) (d : Decoder) : Nat × Nat × Nat × Nat :=
  match d.mode with
  | .waitForSignal => (0, 0, 0, d.zeroscounter)
  | .ser2Par =>
    if d.clockcounter < g - 1 then (d.clockcounter + 1, d.bitcounter, d.bytecounter, 0)
    else if d.bitcounter < 7 then (0, d.bitcounter + 1, d.bytecounter, 0)
    else (0, 0, if d.bytecounter < 9 then d.bytecounter + 1 else 0, 0)
  | .crcResult => (0, 0, 0, 0)
  | .waitForZeros =>
    (d.clockcounter, d.bitcounter, d.bytecounter,
      if d.serial1 then 0 else if d.zeroscounter < 500 then d.zeroscounter + 1 else 0)

def Decoder.clock (g precision : Nat) (d : Decoder) (reset serial : Bool) : Decoder :=
  let counted := d.count reset
  if reset then
    { counted with periodError := true, ratiocounter := 0, mode := .waitForSignal, error := true, crc := d.crcNext g true }
  else
    { counted with
      mode := d.modeNext g
      serial1 := serial
      serial2 := d.serial1
      error := if d.mode = .crcResult then d.crc.data != d.crc.crcR else d.error
      errorNosignal := (d.ratioNext precision).2
      periodError := d.periodNext precision
      crc := d.crcNext g false
      timestampRec :=
        if d.samples g && decide (0 < d.bytecounter) && decide (d.bytecounter < 9)
        then setBit d.timestampRec (63 - (d.bytecounter - 1) * 8 - d.bitcounter) d.serial1
        else d.timestampRec
      clockcounter := (d.convert g).1
      bitcounter := (d.convert g).2.1
      bytecounter := (d.convert g).2.2.1
      ratiocounter := (d.ratioNext precision).1
      zeroscounter := (d.convert g).2.2.2 }

def Decoder.powerUp : Decoder :=
  ⟨.waitForSignal, false, false, false, false, 3, true, ⟨false, 0, false, 0⟩, 0, 0, 0, 0, 0, 0, 0, 0, false⟩

end BelProject.Butis.Timestamp
