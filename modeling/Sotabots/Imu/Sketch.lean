import Sotabots.Machine.Words
import Sotabots.Machine.Trace
/-!
# The motion sensor sketch

`GY_521.ino` reads an accelerometer and gyroscope over a two-wire bus and prints
what it reads.  The `Wire` library and all that is behind it (the bus, the sensor,
the motion) are a parameter, and so is the arithmetic of the processor's doubles:
nothing is assumed of either.  What the memory of an uninitialised variable holds is
an input.
-/

namespace Sotabots.Imu

open Machine

/-! ## The driver -/

/-- The library, by what its calls give and what they leave. -/
structure Wire where
  Bus : Type
  begin : Bus → Bus
  beginTransmission : Bus → UInt8 → Bus
  write : Bus → UInt8 → ℕ × Bus
  writeBytes : Bus → List UInt8 → ℕ × Bus
  endTransmission : Bus → Bool → UInt8 × Bus
  requestFrom : Bus → UInt8 → ℕ → Bool → Bus
  available : Bus → Bool × Bus
  read : Bus → UInt8 × Bus
  /-- What goes on while the sketch waits. -/
  delay : Bus → ℕ → Bus

def i2cAddress : UInt8 := 0x68

section Driver

variable (w : Wire)

/-- The loop of `MPU6050_read`, with `left` bytes to go and `i` in the buffer. -/
def readLoop (left i : ℕ) (bus : w.Bus) (buffer : List UInt8) : ℕ × List UInt8 × w.Bus :=
  match left with
  -- the test asks for `available` before it compares `i` with `size`
  | 0 => (i, buffer, (w.available bus).2)
  | left + 1 =>
      match w.available bus with
      | (false, bus) => (i, buffer, bus)
      | (true, bus) => readLoop left (i + 1) (w.read bus).2 (buffer.set i (w.read bus).1)

def mpu6050Read (bus : w.Bus) (start : UInt8) (buffer : List UInt8) (size : ℕ) :
    Int × List UInt8 × w.Bus :=
  match w.write (w.beginTransmission bus i2cAddress) start with
  | (n, bus) =>
      if n ≠ 1 then (-10, buffer, bus)
      else
        match w.endTransmission bus false with
        | (n, bus) =>
            if n ≠ 0 then (n.toNat, buffer, bus)
            else
              match readLoop w size 0 (w.requestFrom bus i2cAddress size true) buffer with
              | (i, buffer, bus) => if i ≠ size then (-11, buffer, bus) else (0, buffer, bus)

def mpu6050Write (bus : w.Bus) (start : UInt8) (data : List UInt8) : Int × w.Bus :=
  match w.write (w.beginTransmission bus i2cAddress) start with
  | (n, bus) =>
      if n ≠ 1 then (-20, bus)
      else
        match w.writeBytes bus data with
        | (n, bus) =>
            if n ≠ data.length then (-21, bus)
            else
              match w.endTransmission bus true with
              | (error, bus) => (error.toNat, bus)

def mpu6050WriteReg (bus : w.Bus) (reg data : UInt8) : Int × w.Bus :=
  mpu6050Write w bus reg [data]

end Driver

/-! ## The sketch -/

def accelXoutH : UInt8 := 0x3B

def pwrMgmt1 : UInt8 := 0x6B

def whoAmI : UInt8 := 0x75

structure Value where
  xAccel : Int16
  yAccel : Int16
  zAccel : Int16
  temperature : Int16
  xGyro : Int16
  yGyro : Int16
  zGyro : Int16
  deriving DecidableEq

/-- A measurement as the sensor keeps it, high bytes first. -/
def Value.bytes (v : Value) : List UInt8 :=
  [v.xAccel, v.yAccel, v.zAccel, v.temperature, v.xGyro, v.yGyro, v.zGyro].flatMap fun x =>
    [hiByte x.toUInt16, loByte x.toUInt16]

structure Reg where
  xAccelH : UInt8
  xAccelL : UInt8
  yAccelH : UInt8
  yAccelL : UInt8
  zAccelH : UInt8
  zAccelL : UInt8
  tH : UInt8
  tL : UInt8
  xGyroH : UInt8
  xGyroL : UInt8
  yGyroH : UInt8
  yGyroL : UInt8
  zGyroH : UInt8
  zGyroL : UInt8

namespace Reg

def ofBytes (b : List UInt8) : Reg where
  xAccelH := b.getD 0 0
  xAccelL := b.getD 1 0
  yAccelH := b.getD 2 0
  yAccelL := b.getD 3 0
  zAccelH := b.getD 4 0
  zAccelL := b.getD 5 0
  tH := b.getD 6 0
  tL := b.getD 7 0
  xGyroH := b.getD 8 0
  xGyroL := b.getD 9 0
  yGyroH := b.getD 10 0
  yGyroL := b.getD 11 0
  zGyroH := b.getD 12 0
  zGyroL := b.getD 13 0

def swapped (r : Reg) : Reg where
  xAccelH := r.xAccelL
  xAccelL := r.xAccelH
  yAccelH := r.yAccelL
  yAccelL := r.yAccelH
  zAccelH := r.zAccelL
  zAccelL := r.zAccelH
  tH := r.tL
  tL := r.tH
  xGyroH := r.xGyroL
  xGyroL := r.xGyroH
  yGyroH := r.yGyroL
  yGyroL := r.yGyroH
  zGyroH := r.zGyroL
  zGyroL := r.zGyroH

/-- The other view of the same bytes.  The processor has the low byte of a number
at the lower address. -/
def value (r : Reg) : Value where
  xAccel := (word r.xAccelH r.xAccelL).toInt16
  yAccel := (word r.yAccelH r.yAccelL).toInt16
  zAccel := (word r.zAccelH r.zAccelL).toInt16
  temperature := (word r.tH r.tL).toInt16
  xGyro := (word r.xGyroH r.xGyroL).toInt16
  yGyro := (word r.yGyroH r.yGyroL).toInt16
  zGyro := (word r.zGyroH r.zGyroL).toInt16

end Reg

/-- The arithmetic of doubles: conversions, constants and three operations. -/
structure Doubles where
  Double : Type
  ofInt : Int16 → Double
  const : Rat → Double
  add : Double → Double → Double
  mul : Double → Double → Double
  div : Double → Double → Double

inductive Item (fp : Doubles)
  | print (text : String)
  | println (text : String)
  | printHex (c : UInt8)
  | printDec (n : Int)
  | printlnDec (n : Int)
  | printDouble (x : fp.Double) (digits : ℕ)

section Sketch

variable (fp : Doubles) (w : Wire)

def report (error : Int) (v : Value) : List (Item fp) :=
  [.println "", .println "MPU-6050",
    .print "Read accel, temp and gyro, error = ", .printlnDec error,
    .print "accel x,y,z: ",
    .printDouble (fp.div (fp.mul (fp.ofInt v.xAccel) (fp.const 0.00015259254)) (fp.const 2.5)) 10,
    .print ", ", .printDec v.yAccel.toInt, .print ", ", .printDec v.zAccel.toInt, .println "",
    .print "temperature: ",
    .printDouble (fp.div (fp.add (fp.ofInt v.temperature) (fp.const 12412)) (fp.const 340)) 3,
    .print " degrees Celsius", .println "",
    .print "gyro x,y,z : ", .printDec v.xGyro.toInt, .print ", ", .printDec v.yGyro.toInt,
    .print ", ", .printDec v.zGyro.toInt, .print ", ", .println ""]

structure World where
  bus : w.Bus
  serial : List (Item fp)

/-- `setup`, with what `c` holds before. -/
def setup (bus : w.Bus) (c : UInt8) : World fp w :=
  let who := mpu6050Read w (w.begin bus) whoAmI [c] 1
  let power := mpu6050Read w who.2.2 pwrMgmt1 who.2.1 1
  -- the error of the write is not looked at
  let wake := mpu6050WriteReg w power.2.2 pwrMgmt1 0
  { bus := wake.2
    serial :=
      [.println "InvenSense MPU-6050", .println "June 2012",
        .print "WHO_AM_I : ", .printHex (who.2.1.getD 0 0), .print ", error = ",
        .printlnDec who.1,
        .print "PWR_MGMT_1 : ", .printHex (power.2.1.getD 0 0), .print ", error = ",
        .printlnDec power.1] }

variable {fp w}

/-- A pass of `loop`, with what the union holds before. -/
def World.loop (s : World fp w) (union : Vector UInt8 14) : World fp w :=
  let read := mpu6050Read w s.bus accelXoutH union.toList 14
  { bus := w.delay read.2.2 1000
    serial := s.serial ++ report fp read.1 (Reg.ofBytes read.2.1).swapped.value }

end Sketch

/-! ## Transfers -/

/-- The bytes that the bus gives, at most as many as asked for. -/
def Wire.received (w : Wire) : ℕ → w.Bus → List UInt8 × w.Bus
  | 0, bus => ([], (w.available bus).2)
  | size + 1, bus =>
      match w.available bus with
      | (false, bus) => ([], bus)
      | (true, bus) =>
          ((w.read bus).1 :: (w.received size (w.read bus).2).1, (w.received size (w.read bus).2).2)

section Transfers

variable (w : Wire)

/-- A transfer without its buffer: the error, the bytes that arrived and the bus. -/
structure Transfer where
  error : Int
  bytes : List UInt8
  bus : w.Bus

def Wire.transfer (bus : w.Bus) (start : UInt8) (size : ℕ) : Transfer w :=
  match w.write (w.beginTransmission bus i2cAddress) start with
  | (n, bus) =>
      if n ≠ 1 then ⟨-10, [], bus⟩
      else
        match w.endTransmission bus false with
        | (n, bus) =>
            if n ≠ 0 then ⟨n.toNat, [], bus⟩
            else
              match w.received size (w.requestFrom bus i2cAddress size true) with
              | (bytes, bus) => ⟨if bytes.length ≠ size then -11 else 0, bytes, bus⟩

variable {w}

theorem length_received_le (size : ℕ) (bus : w.Bus) : (w.received size bus).1.length ≤ size := by
  induction size generalizing bus with
  | zero => simp [Wire.received]
  | succ size ih =>
      rw [Wire.received]
      split
      · simp
      · simpa using ih _

theorem readLoop_eq (left : ℕ) (bus : w.Bus) (front back : List UInt8)
    (hroom : left ≤ back.length) :
    readLoop w left front.length bus (front ++ back) =
      (front.length + (w.received left bus).1.length,
        front ++ (w.received left bus).1 ++ back.drop (w.received left bus).1.length,
        (w.received left bus).2) := by
  induction left generalizing bus front back with
  | zero => simp [readLoop, Wire.received]
  | succ left ih =>
      rw [readLoop, Wire.received]
      split <;> rename_i bus' hbus
      · simp
      · cases back with
        | nil => simp at hroom
        | cons x back =>
            -- the byte at the front of what is left is overwritten
            have hset : (front ++ x :: back).set front.length (w.read bus').1 =
                (front ++ [(w.read bus').1]) ++ back := by simp
            have hrest := ih (w.read bus').2 (front ++ [(w.read bus').1]) back
              (by simpa using hroom)
            rw [List.length_append, List.length_singleton] at hrest
            rw [hset, hrest]
            simp only [List.append_assoc, List.cons_append, List.nil_append, List.length_cons,
              List.drop_succ_cons, Prod.mk.injEq, and_true]
            omega

/-- The driver fills the front of the buffer with what arrived and leaves the rest. -/
theorem mpu6050Read_eq (bus : w.Bus) (start : UInt8) {buffer : List UInt8} {size : ℕ}
    (hroom : size ≤ buffer.length) :
    mpu6050Read w bus start buffer size =
      ((w.transfer bus start size).error,
        (w.transfer bus start size).bytes ++ buffer.drop (w.transfer bus start size).bytes.length,
        (w.transfer bus start size).bus) := by
  have hloop := fun bus => readLoop_eq (w := w) size bus [] buffer hroom
  simp only [List.length_nil, List.nil_append, Nat.zero_add] at hloop
  unfold mpu6050Read Wire.transfer
  split
  split
  · simp
  · split
    split
    · simp
    · simp only [hloop]
      split <;> simp_all

theorem transfer_cases {bus : w.Bus} {start : UInt8} {size : ℕ} {t : Transfer w}
    (ht : w.transfer bus start size = t) :
    t.bytes = [] ∧ (t.error = -10 ∨ 0 < t.error) ∨
      t.bytes.length ≤ size ∧ t.error = if t.bytes.length ≠ size then -11 else 0 := by
  unfold Wire.transfer at ht
  split at ht
  split at ht
  · subst ht
    exact Or.inl ⟨rfl, Or.inl rfl⟩
  · split at ht
    rename_i code bus' _
    split at ht
    · rename_i hcode
      subst ht
      have hpos : code.toNat ≠ 0 := fun h => hcode (UInt8.toNat_inj.mp h)
      exact Or.inl ⟨rfl, Or.inr (by simp only; omega)⟩
    · subst ht
      exact Or.inr ⟨length_received_le size _, rfl⟩

def Wire.transfers (w : Wire) : w.Bus → ℕ → List (Transfer w)
  | _, 0 => []
  | bus, k + 1 =>
      w.transfer bus accelXoutH 14 ::
        w.transfers (w.delay (w.transfer bus accelXoutH 14).bus 1000) k

end Transfers

/-! ## What is printed -/

/-- The numbers that a pass makes of the bytes that arrived and of what the union
held before. -/
def shown (bytes : List UInt8) (union : Vector UInt8 14) : Value :=
  (Reg.ofBytes (bytes ++ union.toList.drop bytes.length)).swapped.value

theorem bytes_value_swapped {bytes : List UInt8} (h : bytes.length = 14) :
    (Reg.ofBytes bytes).swapped.value.bytes = bytes := by
  match bytes, h with
  | [_, _, _, _, _, _, _, _, _, _, _, _, _, _], _ =>
      simp [Value.bytes, Reg.ofBytes, Reg.swapped, Reg.value]

/-- What the report of a transfer is worth. -/
structure Transfer.Reported {w : Wire} (t : Transfer w) : Prop where
  /-- No error is reported exactly if all fourteen bytes arrived. -/
  complete : t.error = 0 ↔ t.bytes.length = 14
  /-- Then the numbers are those that the bytes make, high bytes first. -/
  numbers : t.error = 0 → ∃ v : Value, t.bytes = v.bytes ∧ ∀ union, shown t.bytes union = v
  /-- With an error other than -11 nothing of the report is from the sensor. -/
  nothing : t.error ≠ 0 → t.error ≠ -11 →
    ∀ union, shown t.bytes union = (Reg.ofBytes union.toList).swapped.value

theorem reported_transfer {w : Wire} (bus : w.Bus) (start : UInt8) :
    (w.transfer bus start 14).Reported := by
  generalize ht : w.transfer bus start 14 = t
  have hcases := transfer_cases ht
  have hcomplete : t.error = 0 ↔ t.bytes.length = 14 := by
    rcases hcases with ⟨hnil, herror⟩ | ⟨-, herror⟩
    · simp only [hnil, List.length_nil]
      omega
    · rw [herror]
      split_ifs with hlength
      · exact iff_of_false (by decide) hlength
      · exact iff_of_true rfl (not_not.mp hlength)
  refine ⟨hcomplete, ?_, ?_⟩
  · intro hok
    have hlength := hcomplete.mp hok
    refine ⟨(Reg.ofBytes t.bytes).swapped.value, (bytes_value_swapped hlength).symm, ?_⟩
    intro union
    rw [shown, List.drop_of_length_le (by simp [hlength]), List.append_nil]
  · intro herror hshort union
    rcases hcases with ⟨hnil, -⟩ | ⟨-, hcode⟩
    · rw [shown, hnil, List.length_nil, List.drop_zero, List.nil_append]
    · split_ifs at hcode
      · exact absurd hcode hshort
      · exact absurd hcode herror

theorem serial_loops {fp : Doubles} {w : Wire} (s : World fp w) (unions : List (Vector UInt8 14)) :
    (run World.loop s unions).serial = s.serial ++
      ((w.transfers s.bus unions.length).zip unions).flatMap fun p =>
        report fp p.1.error (shown p.1.bytes p.2) := by
  induction unions generalizing s with
  | nil => simp
  | cons union rest ih =>
      have hpass := mpu6050Read_eq s.bus accelXoutH (by simp : 14 ≤ union.toList.length)
      rw [run_cons, ih, List.length_cons, Wire.transfers, List.zip_cons_cons, List.flatMap_cons]
      simp only [World.loop, hpass, List.append_assoc]
      rfl

end Sotabots.Imu
