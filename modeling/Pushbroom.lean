import Pushbroom.Attitude.Bias
import Pushbroom.Attitude.Correction
import Pushbroom.Attitude.Interpolation
import Pushbroom.Attitude.Smoothing
import Pushbroom.Decimal.Shortest
import Pushbroom.Dense.Householder
import Pushbroom.Geometry.Quaternion
import Pushbroom.Geometry.Rotation
import Pushbroom.Imager.Allocation
import Pushbroom.Moon.Almanac
import Pushbroom.Moon.Projection
import Pushbroom.Proofs.Attitude.BiasWindow
import Pushbroom.Proofs.Attitude.Cubic
import Pushbroom.Proofs.Attitude.LowPass
import Pushbroom.Proofs.Attitude.Separation
import Pushbroom.Proofs.Attitude.SpanTest
import Pushbroom.Proofs.Dense.Layouts
import Pushbroom.Proofs.Dense.Orthogonal
import Pushbroom.Proofs.Filter.Alternation
import Pushbroom.Proofs.Filter.Exchange
import Pushbroom.Proofs.Filter.GreatestError
import Pushbroom.Proofs.Filter.LevelledDesign
import Pushbroom.Proofs.Filter.LowPassRequest
import Pushbroom.Proofs.Filter.TableDesign
import Pushbroom.Proofs.Filter.UndefinedKernel
import Pushbroom.Proofs.Geometry.Inverse
import Pushbroom.Proofs.Imager.BandTable
import Pushbroom.Proofs.Imager.Faults
import Pushbroom.Proofs.Imager.Presence
import Pushbroom.Proofs.Instrument.JitterTable
import Pushbroom.Proofs.Instrument.LineOfSight
import Pushbroom.Proofs.Instrument.MirrorAngle
import Pushbroom.Proofs.Moon.CachedTransform
import Pushbroom.Proofs.Moon.Direction
import Pushbroom.Proofs.Moon.Following
import Pushbroom.Proofs.ReferenceEpoch
import Pushbroom.Proofs.Time.RoundTrip
import Pushbroom.Proofs.Trajectory.Interpolation
import Pushbroom.Proofs.UndefinedTimes
import Pushbroom.Proofs.Filter.CosineTransform
import Pushbroom.Proofs.Filter.Reflection
import Pushbroom.Proofs.Filter.LevelledResponse
