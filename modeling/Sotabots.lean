import Sotabots.Machine.Trace
import Sotabots.Machine.Past
import Sotabots.Machine.Loop
import Sotabots.Machine.Window
import Sotabots.Java.Platform
import Sotabots.Network.Listen
import Sotabots.Robot.State
import Sotabots.Robot.Teleop
import Sotabots.Robot.Components
import Sotabots.Robot.Winch
import Sotabots.Robot.Latch
import Sotabots.Robot.WinchMotor
import Sotabots.Robot.WindCycle
import Sotabots.Robot.Solenoids
import Sotabots.Robot.Leds
import Sotabots.Robot.Interlock
import Sotabots.Robot.Autonomous
import Sotabots.Robot.AutonomousHalts
import Sotabots.Robot.AutonomousShot
import Sotabots.Robot.Periods
import Sotabots.Robot.Independence
import Sotabots.Robot.AutonomousCalls
import Sotabots.Robot.Sessions
import Sotabots.Vision.Average
import Sotabots.Vision.Samples
import Sotabots.Vision.Target
import Sotabots.Led.Strip
import Sotabots.Led.Controller
import Sotabots.Led.Link
import Sotabots.Network.Exchange
import Sotabots.Robot.Rig
import Sotabots.Robot.Buttons
import Sotabots.Scout.Store
import Sotabots.Cmd.File
import Sotabots.Imu.Sketch
import Sotabots.Cmd.RoundTrip
import Sotabots.Cmd.Convert
import Sotabots.Cmd.System
import Sotabots.Machine.Heap
import Sotabots.Vision.Aiming
import Sotabots.Kernel.Deadlines
import Sotabots.Machine.Gregorian
import Sotabots.Kernel.Calendar
import Sotabots.Led.Frames
