import DrtBehavior.Base.KeepLast
import DrtBehavior.Base.Refinement
import DrtBehavior.Base.Trace
import DrtBehavior.Status.Listing
import DrtBehavior.Status.Snapshot
import DrtBehavior.Status.WireFormat
import DrtBehavior.Visualization.ApprovalAnswers
import DrtBehavior.Visualization.AutoScroll
import DrtBehavior.Visualization.GetApproval
import DrtBehavior.Visualization.LegibleText
import DrtBehavior.Visualization.Selection
import DrtBehavior.Visualization.StatusColours
import DrtBehavior.Visualization.StatusFeed
import DrtBehavior.Visualization.TableOrder
import DrtBehavior.Visualization.TextBoxes
import DrtBehavior.Executor.Idle
import DrtBehavior.Executor.PlannedExecution
import DrtBehavior.Executor.Rejection
import DrtBehavior.Executor.Slot
import DrtBehavior.Planning.DownwardGoals
import DrtBehavior.Planning.JointGoal
import DrtBehavior.Planning.UnreadPorts
import DrtBehavior.Perception.ColorBlobs
import DrtBehavior.Perception.PublisherWait
import DrtBehavior.Perception.SyncedFrames
import DrtBehavior.Geometry.Composition
import DrtBehavior.Geometry.EditChain
import DrtBehavior.Geometry.Placements
import DrtBehavior.VectorPorts
