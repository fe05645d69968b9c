import BlkcgroupTest.PyText
import BlkcgroupTest.Parser
import BlkcgroupTest.ParserOutcome
import BlkcgroupTest.ParserScan
import BlkcgroupTest.ParserLaws
import BlkcgroupTest.Workers
import BlkcgroupTest.Commands
import BlkcgroupTest.InputFiles
import BlkcgroupTest.Devices
import BlkcgroupTest.KillProtocol
import BlkcgroupTest.Containers
import BlkcgroupTest.Scoring
import BlkcgroupTest.Session
import BlkcgroupTest.Confinement
